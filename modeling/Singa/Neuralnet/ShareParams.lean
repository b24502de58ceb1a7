import Singa.Neuralnet.Resolve

/-!
# Sharing params between nets

`ShareParamsFrom` looks the layers of the other net up by `layer->name()`, which
all partitions of a layer have, and so finds the last one. That is the same blob
for the replicas of a layer on dimension 0, which share with the first of them,
and another one for the partitions of a layer on dimension 1.
-/

namespace Singa.NeuralNet
set_option autoImplicit false

variable {g : NetGraph} {n : Nat} {layers : List LayerConf} {shape : Nat → Nat → List Nat} {base : Nat}
  {iterate : List String → List String} {b : Builder} {params : Nat → NetParam} {net other net' : Net}

/-- `p` is the `k`-th param of the partition `i` of the layer `name`. -/
def ParamOf (net : Net) (name : String) (i : Int) (k p : Nat) : Prop :=
  ∃ layer ∈ net.layers, layer.proto.name = name ∧ layer.proto.partitionId = i ∧ layer.params[k]? = some p

/-- The params of the partitions of the layers in `both` hold the same blobs in both nets. -/
def SameData (both : List LayerConf) (net other : Net) : Prop :=
  ∀ conf ∈ both, ∀ i k p q, ParamOf net conf.proto.name i k p → ParamOf other conf.proto.name i k q →
    (net.params p).data = (other.params q).data

/-! ## The blobs of the partitions of a layer -/

namespace Created

variable (h : Created iterate n layers shape base g b params net)

include h

theorem paramOf_iff {conf : LayerConf} (mem : conf ∈ layers) {i : Int} {k p : Nat} :
    ParamOf net conf.proto.name i k p ↔
      ∃ v ∈ g.nodes, ParamNode g v ∧ NodeOf n conf.proto i (g.node v) ∧ k < 2 ∧ p = firstId g v + k := by
  constructor
  · rintro ⟨layer, memLayer, name, id, param⟩
    obtain ⟨v, hv, has, rfl, hk, rfl⟩ := h.layer_node memLayer param
    obtain ⟨j, of⟩ := h.built.node_conf mem hv has name
    have same : (g.node v).proto.partitionId = j := by rw [of.proto]
    exact ⟨v, hv, has, id ▸ same ▸ of, hk, rfl⟩
  · rintro ⟨v, hv, has, of, hk, rfl⟩
    refine ⟨_, h.node_layer hv has, ?_, ?_, ?_⟩
    · simp [of.proto]
    · simp [of.proto]
    · obtain rfl | rfl : k = 0 ∨ k = 1 := by omega
      · rfl
      · rfl

/-- Partitions of a layer that is not on dimension 0 hold different blobs: at most one of them is an
entry of `name2param`. -/
theorem data_apart {u v k : Nat} (hu : u ∈ g.nodes) (hv : v ∈ g.nodes) (hasU : ParamNode g u) (hasV : ParamNode g v)
    (same : (g.node u).proto.name = (g.node v).proto.name) (dimU : (g.node u).proto.partitionDim ≠ 0)
    (dimV : (g.node v).proto.partitionDim ≠ 0) (hk : k < 2) (ne : u ≠ v) :
    (net.params (firstId g u + k)).data ≠ (net.params (firstId g v + k)).data := by
  have apart {u v : Nat} (hu : u ∈ g.nodes) (hv : v ∈ g.nodes) (hasU : ParamNode g u) (hasV : ParamNode g v)
      (ne : u ≠ v) (noEntry : ∀ name, name2param b (layersOf g b) name ≠ some (firstId g v + k)) :
      (params (firstId g u + k)).data ≠ (params (firstId g v + k)).data := by
    have own : params (firstId g v + k) = b.params (firstId g v + k) :=
      names_keep h.names fun name _ entry => absurd entry (noEntry name)
    obtain ⟨data, owner⟩ := h.data_owner hu hasU hk
    rw [own, h.built.setUp.params v hv hasV k hk, data]
    intro blobs
    have owners : (params (firstId g u + k)).owner = firstId g v + k := Nat.add_left_cancel blobs
    rw [owners] at owner
    rcases owner with owner | ⟨name, entry⟩
    · exact ne (firstId_inj hu hasU hv hk hk owner.symm).1
    · exact noEntry name entry
  have entryName {w : Nat} (hw : w ∈ g.nodes) (hasW : ParamNode g w) {name : String}
      (entry : name2param b (layersOf g b) name = some (firstId g w + k)) :
      name = paramName layers (g.node w).proto.name k := by
    obtain ⟨x, hx, hasX, j, hj, id, rfl⟩ := h.built.name2param_mem entry
    obtain ⟨rfl, rfl⟩ := firstId_inj hw hasW hx hk hj id
    rfl
  rw [h.not_replica hu hasU dimU hk, h.not_replica hv hasV dimV hk]
  by_cases entry : ∃ name, name2param b (layersOf g b) name = some (firstId g v + k)
  · obtain ⟨name, entry⟩ := entry
    refine (apart hv hu hasV hasU ne.symm fun name' entry' => ne ?_).symm
    rw [entryName hu hasU entry', same, ← entryName hv hasV entry, entry] at entry'
    exact (firstId_inj hv hasV hu hk hk (Option.some.inj entry')).1.symm
  · exact apart hu hv hasU hasV ne fun name here => entry ⟨name, here⟩

/-! ## `ShareParamsFrom` -/

/-- What `ShareParamsFrom` leaves in the params of a node. -/
theorem shareParamsFrom_ok (run : shareParamsFrom net other = .ok net') {v : Nat} (hv : v ∈ g.nodes)
    (has : ParamNode g v) {otherlayer : NetLayer}
    (found : name2layer other (g.node v).proto.name = some otherlayer) :
    otherlayer.params.length = 2 ∧ ∀ k q, otherlayer.params[k]? = some q →
      net'.params (firstId g v + k) = sharing (net.params (firstId g v + k)) (other.params q) := by
  obtain ⟨params', loop, last⟩ := Run.do_ok.mp run
  cases last
  obtain ⟨s, s', pass⟩ := Run.foldlM_each loop _ (h.node_layer hv has)
  simp only [found] at pass
  have count : otherlayer.params.length = 2 := by
    rw [shareLayerFrom] at pass
    split at pass
    · rename_i count
      exact count.symm
    · cases pass
  let sources (layer : NetLayer) : List Nat := ((name2layer other layer.proto.name).map NetLayer.params).getD []
  have flat : (net.layers.flatMap fun layer => layer.params.zip (sources layer)).foldlM (fun params e => do
      let p ← (params e.1).share (other.params e.2)
      .ok (Function.update params e.1 p)) net.params = .ok params' := by
    refine Run.foldlM_flatMap_ok (fun s layer s' pass => ?_) loop
    simp only [sources]
    split at pass
    · rename_i otherlayer found
      rw [found]
      rw [shareLayerFrom] at pass
      split at pass
      · exact pass
      · cases pass
    · rename_i none
      rw [none, Option.map_none, Option.getD_none, List.zip_nil_right]
      exact pass
  have copy {e : Nat × Nat} (mem : e ∈ net.layers.flatMap fun layer => layer.params.zip (sources layer)) :
      ∃ w ∈ g.nodes, ParamNode g w ∧ ∃ k < 2, e.1 = firstId g w + k ∧
        (((name2layer other (g.node w).proto.name).map NetLayer.params).getD [])[k]? = some e.2 := by
    obtain ⟨layer, memLayer, mem⟩ := List.mem_flatMap.mp mem
    obtain ⟨k, hk⟩ := List.mem_iff_getElem?.mp mem
    obtain ⟨target, source⟩ := List.getElem?_zip_eq_some.mp hk
    obtain ⟨w, hw, hasW, rfl, bound, id⟩ := h.layer_node memLayer target
    exact ⟨w, hw, hasW, k, bound, id, source⟩
  have single : ∀ e ∈ net.layers.flatMap fun layer => layer.params.zip (sources layer),
      ∀ e' ∈ net.layers.flatMap fun layer => layer.params.zip (sources layer), e.1 = e'.1 → e.2 = e'.2 := by
    intro e he e' he' same
    obtain ⟨w, hw, hasW, k, hk, id, source⟩ := copy he
    obtain ⟨w', hw', hasW', k', hk', id', source'⟩ := copy he'
    obtain ⟨rfl, rfl⟩ := firstId_inj hw hasW hw' hk hk' (id.symm.trans (same.trans id'))
    rw [source] at source'
    exact Option.some.inj source'
  obtain ⟨copied, -⟩ := copies_ok (fun _ _ _ _ => rfl) single flat
  refine ⟨count, fun k q param => ?_⟩
  have bound : k < 2 := count ▸ (List.getElem?_eq_some_iff.mp param).1
  refine copied (firstId g v + k, q) (List.mem_flatMap.mpr ⟨_, h.node_layer hv has, ?_⟩)
  refine List.mem_iff_getElem?.mpr ⟨k, List.getElem?_zip_eq_some.mpr ⟨?_, ?_⟩⟩
  · obtain rfl | rfl : k = 0 ∨ k = 1 := by omega
    · rfl
    · rfl
  · simp only [sources, found]
    exact param

end Created

/-- A layer that is found by its name. -/
theorem name2layer_found {name : String} (named : ∃ layer ∈ net.layers, layer.proto.name = name) :
    ∃ layer ∈ net.layers, layer.proto.name = name ∧ name2layer net name = some layer := by
  obtain ⟨layer, mem, here⟩ := named
  have found : (net.layers.reverse.find? fun layer => layer.proto.name = name).isSome :=
    List.find?_isSome.mpr ⟨layer, List.mem_reverse.mpr mem, by simpa using here⟩
  obtain ⟨last, at_name⟩ := Option.isSome_iff_exists.mp found
  exact ⟨last, List.mem_reverse.mp (List.mem_of_find?_eq_some at_name), by simpa using List.find?_some at_name, at_name⟩

/-- The layers that two phases have in common. -/
def sharedLayers (conf : NetProto) (phaseA phaseB : Phase) : List LayerConf :=
  (included conf phaseA).filter (· ∈ included conf phaseB)

/-- Every partition of a layer gets the params of one partition of it in the other net, the last one. -/
theorem Created.shareParamsFrom_last {iterateA iterateB : List String → List String} {layersA layersB : List LayerConf}
    {shapeA shapeB : Nat → Nat → List Nat} {baseA baseB : Nat} {gA gB : NetGraph} {bA bB : Builder}
    {paramsA paramsB : Nat → NetParam} {A B A' : Net}
    (hA : Created iterateA n layersA shapeA baseA gA bA paramsA A)
    (hB : Created iterateB n layersB shapeB baseB gB bB paramsB B) (run : shareParamsFrom A B = .ok A') (positive : 1 ≤ n)
    {layer : LayerConf} (memA : layer ∈ layersA) (memB : layer ∈ layersB) (type : hasParams layer.proto.type = true) :
    ∃ z ∈ gB.nodes, (∃ j, NodeOf n layer.proto j (gB.node z)) ∧
      ∀ v ∈ gA.nodes, (∃ i, NodeOf n layer.proto i (gA.node v)) → ∀ k < 2,
        (A'.params (firstId gA v + k)).data = (B.params (firstId gB z + k)).data := by
  obtain ⟨i, hi⟩ : ∃ i, i ∈ layerIds n layer.proto := layerIds_nonempty positive layer.proto
  obtain ⟨w, hw, ofW⟩ := hB.built.laid.node layer.proto (List.mem_map_of_mem memB) i hi
  obtain ⟨lastB, memLast, nameLast, found⟩ := name2layer_found
    ⟨_, hB.node_layer hw (ofW.paramNode_iff.mpr type), by rw [ofW.proto]⟩
  -- all partitions find it by the name of the layer
  have copied {v : Nat} (hv : v ∈ gA.nodes) {i : Int} (of : NodeOf n layer.proto i (gA.node v)) :=
    hA.shareParamsFrom_ok run hv (of.paramNode_iff.mpr type) (by rw [of.proto]; exact found)
  obtain ⟨v₀, hv₀, ofV₀⟩ := hA.built.laid.node layer.proto (List.mem_map_of_mem memA) i hi
  have count := (copied hv₀ ofV₀).1
  obtain ⟨z, hz, hasZ, here, -, -⟩ := hB.layer_node memLast
    (k := 0) (List.getElem?_eq_getElem (by omega))
  rw [here] at nameLast
  refine ⟨z, hz, hB.built.node_conf memB hz hasZ nameLast, fun v hv of k hk => ?_⟩
  obtain ⟨j, ofV⟩ := of
  rw [(copied hv ofV).2 k (firstId gB z + k) ?_]
  · rfl
  · rw [here]
    obtain rfl | rfl : k = 0 ∨ k = 1 := by omega
    · rfl
    · rfl

/-- `A.ShareParamsFrom(B)` gives every partition of the common layers its own partition's params exactly
when the net has one partition or no common layer with params is on dimension 1. -/
theorem shareParamsFrom_sameData_iff {fuelA fuelB : Nat} {factory : Factory}
    {iterateA iterateB : List String → List String} {shapeA shapeB : Nat → Nat → List Nat} {baseA baseB : Nat}
    {conf : NetProto} {phaseA phaseB : Phase} {A B A' : Net} (positive : 1 ≤ n)
    (plainA : PlainNet ((included conf phaseA).map LayerConf.proto))
    (plainB : PlainNet ((included conf phaseB).map LayerConf.proto))
    (runA : create fuelA factory iterateA shapeA baseA conf phaseA n = .ok A)
    (runB : create fuelB factory iterateB shapeB baseB conf phaseB n = .ok B)
    (run : shareParamsFrom A B = .ok A') :
    SameData (sharedLayers conf phaseA phaseB) A' B ↔
      n = 1 ∨ ∀ layer ∈ sharedLayers conf phaseA phaseB, hasParams layer.proto.type = true →
        layer.proto.partitionDim ≠ 1 := by
  obtain ⟨gA, bA, paramsA, hA⟩ := create_ok plainA runA
  obtain ⟨gB, bB, paramsB, hB⟩ := create_ok plainB runB
  have layers : A'.layers = A.layers := by
    obtain ⟨params', -, last⟩ := Run.do_ok.mp run
    cases last
    rfl
  have paramOf (name : String) (i : Int) (k p : Nat) : ParamOf A' name i k p ↔ ParamOf A name i k p := by
    rw [ParamOf, ParamOf, layers]
  have common {layer : LayerConf} (mem : layer ∈ sharedLayers conf phaseA phaseB) :
      layer ∈ included conf phaseA ∧ layer ∈ included conf phaseB := by simpa [sharedLayers] using mem
  have last {layer : LayerConf} (mem : layer ∈ sharedLayers conf phaseA phaseB)
      (type : hasParams layer.proto.type = true) :=
    hA.shareParamsFrom_last hB run positive (common mem).1 (common mem).2 type
  constructor
  · intro same
    by_contra both
    obtain ⟨more, layer, mem, type, dim⟩ : n ≠ 1 ∧ ∃ layer ∈ sharedLayers conf phaseA phaseB,
        hasParams layer.proto.type = true ∧ layer.proto.partitionDim = 1 := by
      simpa using both
    obtain ⟨memA, memB⟩ := common mem
    obtain ⟨z, -, -, copied⟩ := last mem type
    have ids (i : Nat) (hi : i < n) : (i : Int) ∈ layerIds n layer.proto := by
      rw [layerIds, if_pos (.inr dim)]
      exact List.mem_map_of_mem (List.mem_range.mpr hi)
    have equal (i : Nat) (hi : i < n) : ∃ w ∈ gB.nodes, NodeOf n layer.proto i (gB.node w) ∧
        (B.params (firstId gB z + 0)).data = (B.params (firstId gB w + 0)).data := by
      obtain ⟨v, hv, ofV⟩ := hA.built.laid.node layer.proto (List.mem_map_of_mem memA) i (ids i hi)
      obtain ⟨w, hw, ofW⟩ := hB.built.laid.node layer.proto (List.mem_map_of_mem memB) i (ids i hi)
      refine ⟨w, hw, ofW, ?_⟩
      rw [← copied v hv ⟨_, ofV⟩ 0 (by omega)]
      refine same layer mem i 0 _ _ ((paramOf _ _ _ _).mpr ?_) ?_
      · exact (hA.paramOf_iff memA).mpr ⟨v, hv, ofV.paramNode_iff.mpr type, ofV, by omega, rfl⟩
      · exact (hB.paramOf_iff memB).mpr ⟨w, hw, ofW.paramNode_iff.mpr type, ofW, by omega, rfl⟩
    obtain ⟨u, hu, ofU, first⟩ := equal 0 (by omega)
    obtain ⟨w, hw, ofW, second⟩ := equal 1 (by omega)
    refine hB.data_apart hu hw (ofU.paramNode_iff.mpr type) (ofW.paramNode_iff.mpr type) ?_ ?_ ?_ (by omega) ?_
      (first.symm.trans second)
    · rw [ofU.proto, ofW.proto]
    · rw [ofU.proto]
      simp [dim]
    · rw [ofW.proto]
      simp [dim]
    · rintro rfl
      have id := congrArg LayerProto.partitionId (ofU.proto.symm.trans ofW.proto)
      simp at id
  · intro cond layer mem i k p q paramA paramB
    obtain ⟨memA, memB⟩ := common mem
    obtain ⟨v, hv, hasV, ofV, hk, rfl⟩ := (hA.paramOf_iff memA).mp ((paramOf _ _ _ _).mp paramA)
    obtain ⟨w, hw, hasW, ofW, -, rfl⟩ := (hB.paramOf_iff memB).mp paramB
    have type := ofV.paramNode_iff.mp hasV
    obtain ⟨z, hz, ⟨j, ofZ⟩, copied⟩ := last mem type
    rw [copied v hv ⟨i, ofV⟩ k hk]
    by_cases replicas : layer.proto.partitionDim = 0
    · obtain ⟨f, -, -, -, -, all⟩ := hB.replicas_of memB replicas type hz ⟨j, ofZ⟩
      exact (all z hz ⟨j, ofZ⟩ k hk).2.trans (all w hw ⟨i, ofW⟩ k hk).2.symm
    · -- the layer has one node only
      have one : j = i := by
        have memJ := ofZ.id
        have memI := ofW.id
        rcases cond with rfl | notOne
        · simp only [layerIds] at memI memJ
          split at memI
          · simp_all
          · simp_all
        · rw [layerIds, if_neg (by simp [replicas, notOne layer mem type]), List.mem_singleton] at memI memJ
          rw [memI, memJ]
      obtain rfl := hB.built.laid.once layer.proto (List.mem_map_of_mem memB) i z hz w hw (one ▸ ofZ) ofW
      rfl

/-- A data layer and a fully connected one on the given dimension, the same for all phases. -/
def connectedNet (dim : Int) : NetProto where
  layer := [{ proto := { name := "data", type := .kShardData } },
    { proto := { name := "fc", type := .kInnerProduct, srclayers := ["data"], partitionDim := dim }
      param := [{}, {}] }]

/-- The net trained by two workers and its test net. -/
def connectedTrain (dim : Int) : Run Net :=
  create 40 registeredLayers id (fun _ _ => [2]) 0 (connectedNet dim) .kTrain 2

def connectedTest (dim : Int) : Run Net :=
  create 40 registeredLayers id (fun _ _ => [2]) 100 (connectedNet dim) .kTest 2

theorem connectedNet_shared : ∃ A B A', connectedTrain 0 = .ok A ∧ connectedTest 0 = .ok B ∧
    shareParamsFrom B A = .ok A' ∧ SameData (sharedLayers (connectedNet 0) .kTest .kTrain) A' A := by
  obtain ⟨A, runA⟩ : ∃ A, connectedTrain 0 = .ok A := Run.exists_of_isOk (by decide +kernel)
  obtain ⟨B, runB⟩ : ∃ B, connectedTest 0 = .ok B := Run.exists_of_isOk (by decide +kernel)
  obtain ⟨A', run⟩ : ∃ A', (do shareParamsFrom (← connectedTest 0) (← connectedTrain 0)) = .ok A' :=
    Run.exists_of_isOk (by decide +kernel)
  rw [runA, runB] at run
  refine ⟨A, B, A', runA, runB, run, ?_⟩
  refine (shareParamsFrom_sameData_iff (by decide) ?_ ?_ runB runA run).mpr (.inr ?_)
  · exact ⟨by decide, by decide⟩
  · exact ⟨by decide, by decide⟩
  · decide

/-- With the layer on dimension 1, both partitions of the test net get the params of the second one. -/
theorem split_connectedNet_not_shared : PlainNet ((included (connectedNet 1) .kTest).map LayerConf.proto) ∧
    ∃ A B A', connectedTrain 1 = .ok A ∧ connectedTest 1 = .ok B ∧ shareParamsFrom B A = .ok A' ∧
      ¬ SameData (sharedLayers (connectedNet 1) .kTest .kTrain) A' A := by
  let first : NetLayer :=
    ⟨{ name := "fc", type := .kInnerProduct, srclayers := ["data"], partitionDim := 1 }, [0, 1]⟩
  have all : (do
      let A ← connectedTrain 1
      let B ← connectedTest 1
      let A' ← shareParamsFrom B A
      .ok (A.layers[2]?, (A.params 0).data, A'.layers[2]?, (A'.params 0).data)) =
      .ok (some first, 0, some first, 2) := by
    decide +kernel
  obtain ⟨A, runA, all⟩ := Run.do_ok.mp all
  obtain ⟨B, runB, all⟩ := Run.do_ok.mp all
  obtain ⟨A', run, all⟩ := Run.do_ok.mp all
  refine ⟨⟨by decide, by decide⟩, A, B, A', runA, runB, run, fun same => ?_⟩
  simp only [Except.ok.injEq, Prod.mk.injEq] at all
  obtain ⟨layerA, dataA, layerA', dataA'⟩ := all
  have blobs := same ⟨first.proto, true, [], [{}, {}]⟩ (by decide) 0 0 0 0
    ⟨first, List.mem_of_getElem? layerA', rfl, rfl, rfl⟩ ⟨first, List.mem_of_getElem? layerA, rfl, rfl, rfl⟩
  rw [dataA, dataA'] at blobs
  omega

end Singa.NeuralNet
