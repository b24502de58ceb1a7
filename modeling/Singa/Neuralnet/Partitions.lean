import Singa.Neuralnet.UniqueNodes

/-!
# The nodes of each layer

Among the nodes of the graph that `CreateGraph` returns, every partition of every
layer has exactly one, with the layer's own configuration; the others are
inserted, and tell themselves apart by their names.
-/

namespace Singa.NeuralNet
set_option autoImplicit false

variable {g : NetGraph} {n : Nat} {net : List LayerProto} {m : Made} {factory : Factory}

/-- The node of the partition `i` of `layer`. -/
structure NodeOf (n : Nat) (layer : LayerProto) (i : Int) (node : Node LayerProto) : Prop where
  id : i ∈ layerIds n layer
  proto : node.proto = { layer with partitionId := i }
  origin : node.origin = layer.name
  name : node.name ∈ nodeNames n layer

/-- An inserted node. -/
structure InsertedNode (node : Node LayerProto) : Prop where
  hub : Hublike node.proto
  name : ∃ c ∈ ['<', '>', '+'], c ∈ node.name.toList

/-- Every partition of every layer has its node; the other nodes are inserted. -/
structure Laid (n : Nat) (net : List LayerProto) (g : NetGraph) : Prop where
  nodup : g.nodes.Nodup
  kinds : ∀ v ∈ g.nodes, (∃ layer ∈ net, ∃ i, NodeOf n layer i (g.node v)) ∨ InsertedNode (g.node v)
  node : ∀ layer ∈ net, ∀ i ∈ layerIds n layer, ∃ v ∈ g.nodes, NodeOf n layer i (g.node v)
  once : ∀ layer ∈ net, ∀ i, ∀ u ∈ g.nodes, ∀ v ∈ g.nodes, NodeOf n layer i (g.node u) →
    NodeOf n layer i (g.node v) → u = v

/-- The node that a label describes. -/
theorem layerLabels_nodeOf {layer : LayerProto} {node : Node LayerProto} (h : node.label ∈ layerLabels n layer) :
    ∃ i, NodeOf n layer i node := by
  have name : node.name ∈ nodeNames n layer := by
    rw [← layerLabels_names]
    exact List.mem_map_of_mem h
  rw [layerLabels] at h
  split at h
  · rename_i dim
    obtain ⟨i, hi, label⟩ := List.mem_map.mp h
    refine ⟨i, ?_, (congrArg (fun l => l.2.2.2) label).symm, (congrArg (fun l => l.2.1) label).symm, name⟩
    rw [layerIds, if_pos dim]
    exact List.mem_map_of_mem hi
  · rename_i dim
    have label := List.mem_singleton.mp h
    refine ⟨layer.partitionId, ?_, congrArg (fun l => l.2.2.2) label, congrArg (fun l => l.2.1) label, name⟩
    rw [layerIds, if_neg dim]
    exact List.mem_singleton_self _

/-- The configurations of the nodes of a layer. -/
theorem layerLabels_protos (n : Nat) (layer : LayerProto) :
    (layerLabels n layer).map (·.2.2.2) = (layerIds n layer).map fun i => { layer with partitionId := i } := by
  rw [layerLabels, layerIds]
  split
  · rw [List.map_map, List.map_map]
    rfl
  · rfl

theorem layerIds_nodup (n : Nat) (layer : LayerProto) : (layerIds n layer).Nodup := by
  rw [layerIds]
  split
  · exact List.nodup_range.map fun a b same => Int.ofNat.inj same
  · exact List.nodup_singleton _

theorem layerIds_nonempty (positive : 1 ≤ n) (layer : LayerProto) : ∃ i, i ∈ layerIds n layer := by
  rw [layerIds]
  split
  · exact ⟨_, List.mem_map_of_mem (List.mem_range.mpr positive)⟩
  · exact ⟨_, List.mem_singleton_self _⟩

/-- No two layer nodes have the same configuration. -/
theorem protos_nodup (h : PlainNet net) (n : Nat) :
    (net.flatMap fun layer => (layerIds n layer).map fun i => { layer with partitionId := i }).Nodup := by
  refine List.nodup_flatMap.mpr ⟨fun layer _ => ?_, ?_⟩
  · exact (layerIds_nodup n layer).map fun a b same => congrArg LayerProto.partitionId same
  · have nodup : net.Nodup := List.Nodup.of_map _ h.distinct
    refine nodup.imp_of_mem fun ha hb ne proto mem mem' => ne ?_
    obtain ⟨i, -, rfl⟩ := List.mem_map.mp mem
    obtain ⟨j, -, same⟩ := List.mem_map.mp mem'
    exact h.eq ha hb (congrArg LayerProto.name same).symm

/-- The names of inserted nodes carry a mark. -/
theorem insertedNames_marks (h : PlainNet net) {name : String}
    (mem : name ∈ (links net).flatMap (linkNames factory n)) : ∃ c ∈ ['<', '>', '+'], c ∈ name.toList := by
  obtain ⟨link, hlink, mem⟩ := List.mem_flatMap.mp mem
  obtain ⟨src, dst⟩ := links_mem hlink
  obtain ⟨slice, split, concate⟩ := linkNames_marks (h.plain _ src) (h.plain _ dst) mem
  rcases linkNames_cases mem with ⟨w, -⟩ | ⟨w, -⟩ | ⟨w, -⟩
  · exact ⟨'<', by decide, slice.mpr w⟩
  · exact ⟨'+', by decide, split.mpr w⟩
  · exact ⟨'>', by decide, concate.mpr w⟩

/-- The name of an added node is one of the added names. -/
theorem Named.added {base : NetGraph} {names : List String} {outs : Nat → Nat} (h : Named base names outs g)
    (listed : ∀ u ∈ base.nodes, u < base.size) {u : Nat} (low : base.size ≤ u) (high : u < g.size) :
    (g.node u).name ∈ names := by
  have split := h.names
  rw [h.nodes, List.map_append] at split
  have kept : base.nodes.map (fun u => (g.node u).name) = base.nodes.map fun u => (base.node u).name :=
    List.map_congr_left fun u hu => h.name (listed u hu)
  rw [kept] at split
  rw [← List.append_cancel_left split]
  refine List.mem_map_of_mem (f := fun u => (g.node u).name) (List.mem_range'_1.mpr ⟨low, ?_⟩)
  have grown := h.grown
  omega

/-- Inserted and layer nodes differ. -/
theorem NodeOf.not_inserted (h : PlainNet net) {layer : LayerProto} (mem : layer ∈ net) {i : Int}
    {node : Node LayerProto} (of : NodeOf n layer i node) : ¬ InsertedNode node := by
  rintro ⟨-, c, mark, hc⟩
  exact nodeNames_chars (h.plain layer mem) of.name c hc mark

theorem createGraph_laid {fuel : Nat} (h : PlainNet net) (run : createGraph fuel factory net n = .ok g) :
    Laid n net g := by
  obtain ⟨m, c, sorted, split, outs, created, connected, ⟨node, size, perm⟩, after, ⟨node', size', perm'⟩,
    numbered⟩ := createGraph_stages h.distinct run
  have labelled := createNodes_labelled created
  have named := connect_named (createNodes_madeOf created) labelled h.distinct connected
  have listedM : ∀ u ∈ m.graph.nodes, u < m.graph.size := by
    rw [labelled.numbered]
    exact fun u => List.mem_range.mp
  have numberedC := named.numbered (.of_eq labelled.numbered)
  have listedS : ∀ u ∈ sorted.nodes, u < sorted.size := fun u hu => by
    rw [size]
    exact List.mem_range.mp (numberedC.mem_iff.mp (perm.mem_iff.mp hu))
  have grown : m.graph.size ≤ sorted.size := size ▸ named.grown
  have label (u : Nat) (hu : u < m.graph.size) : (g.node u).label = (m.graph.node u).label := by
    rw [node', after.label u (hu.trans_le grown), node, named.label u hu]
  have inserted (u : Nat) (low : m.graph.size ≤ u) (high : u < g.size) : InsertedNode (g.node u) := by
    rw [size'] at high
    rw [node']
    rcases Nat.lt_or_ge u sorted.size with connectNode | passNode
    · have same := after.label u connectNode
      rw [size] at connectNode
      rw [node] at same
      refine ⟨?_, ?_⟩
      · rw [proto_of_label same]
        exact named.inserted u low connectNode
      · rw [name_of_label same]
        exact insertedNames_marks h (named.added listedM low connectNode)
    · refine ⟨after.inserted u passNode high, '+', by decide, ?_⟩
      obtain ⟨w, -, name⟩ := List.mem_map.mp (after.added listedS passNode high)
      rw [← name]
      simp
  have base (u : Nat) (hu : u < m.graph.size) : (g.node u).label ∈ net.flatMap (layerLabels n) := by
    rw [label u hu, ← labelled.labels, labelled.numbered]
    exact List.mem_map_of_mem (f := fun u => (m.graph.node u).label) (List.mem_range.mpr hu)
  have below {layer : LayerProto} (mem : layer ∈ net) {i : Int} {u : Nat} (hu : u ∈ g.nodes)
      (of : NodeOf n layer i (g.node u)) : u < m.graph.size := by
    by_contra high
    exact of.not_inserted h mem (inserted u (by omega) (List.mem_range.mp (numbered.mem_iff.mp hu)))
  have protos : m.graph.nodes.map (fun u => (m.graph.node u).proto) =
      net.flatMap fun layer => (layerIds n layer).map fun i => { layer with partitionId := i } := by
    rw [← List.flatMap_congr fun layer _ => layerLabels_protos n layer, ← List.map_flatMap, ← labelled.labels,
      List.map_map]
    rfl
  refine ⟨numbered.nodup_iff.mpr List.nodup_range, fun v hv => ?_, fun layer mem i hi => ?_,
    fun layer mem i u hu v hv ofU ofV => ?_⟩
  · have high := List.mem_range.mp (numbered.mem_iff.mp hv)
    rcases Nat.lt_or_ge v m.graph.size with low | ins
    · obtain ⟨layer, mem, here⟩ := List.mem_flatMap.mp (base v low)
      exact .inl ⟨layer, mem, layerLabels_nodeOf here⟩
    · exact .inr (inserted v ins high)
  · have listed : { layer with partitionId := i } ∈ m.graph.nodes.map fun u => (m.graph.node u).proto := by
      rw [protos]
      exact List.mem_flatMap.mpr ⟨layer, mem, List.mem_map_of_mem hi⟩
    obtain ⟨u, hu, proto⟩ := List.mem_map.mp listed
    have low := listedM u hu
    refine ⟨u, numbered.mem_iff.mpr (List.mem_range.mpr ?_), ?_⟩
    · rw [size']
      exact low.trans_le (grown.trans after.grown)
    · obtain ⟨layer', mem', here⟩ := List.mem_flatMap.mp (base u low)
      obtain ⟨i', of⟩ := layerLabels_nodeOf here
      have same := of.proto.symm.trans ((proto_of_label (label u low)).trans proto)
      have names := congrArg LayerProto.name same
      obtain rfl := h.eq mem' mem names
      have ids := congrArg LayerProto.partitionId same
      obtain rfl : i' = i := ids
      exact of
  · have lowU := below mem hu ofU
    have lowV := below mem hv ofV
    have nodup : (m.graph.nodes.map fun u => (m.graph.node u).proto).Nodup := protos ▸ protos_nodup h n
    refine List.inj_on_of_nodup_map nodup ?_ ?_ ?_
    · rw [labelled.numbered]
      exact List.mem_range.mpr lowU
    · rw [labelled.numbered]
      exact List.mem_range.mpr lowV
    · rw [← proto_of_label (label u lowU), ← proto_of_label (label v lowV), ofU.proto, ofV.proto]

end Singa.NeuralNet
