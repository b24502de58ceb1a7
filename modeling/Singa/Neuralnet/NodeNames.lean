import Singa.Neuralnet.Bridging
import Singa.Neuralnet.SplitOrder

/-!
# The names of the nodes

An inserted node is named after one of its ends: `data<` and `data+` after a
source, `>fc` after a destination, `data@01` after a layer and a partition id
cut to three characters. Two insertions at the same end give two nodes one name,
and the maps from names to nodes and layers then know only the later of them.
-/

namespace Singa.NeuralNet
set_option autoImplicit false

variable {g g' base : NetGraph} {n : Nat} {net : List LayerProto} {m : Made} {factory : Factory}

/-- A name without the characters that `CreateGraph` adds. -/
def Plain (name : String) : Prop := ∀ c ∈ name.toList, c ∉ ['@', '<', '>', '+', ':']

instance (name : String) : Decidable (Plain name) := List.decidableBAll (fun c => c ∉ ['@', '<', '>', '+', ':']) name.toList

/-- The names of the nodes of a layer. -/
def nodeNames (npartitions : Nat) (layer : LayerProto) : List String :=
  if layer.partitionDim = 0 ∨ layer.partitionDim = 1 then
    (List.range npartitions).map fun i => layer.name ++ "@" ++ suffix i
  else [layer.name]

/-- The names of the nodes that one pass of the connection loop inserts. -/
def Wiring.inserts (w : Wiring) (srcs dsts : List String) : List String :=
  match w with
  | .slice => (srcs.take 1).map (· ++ "<")
  | .split => (srcs.take 1).map (· ++ "+")
  | .concate => dsts.map (">" ++ ·)
  | .edge | .pairwise | .exchange | .none => []

/-- The number of edges that one pass adds at the source node `u`. -/
def Wiring.outs (w : Wiring) (srcs dsts : List Nat) (u : Nat) : Nat :=
  match w with
  | .slice | .edge | .split => (srcs.take 1).count u
  | .concate => dsts.length * srcs.count u
  | .pairwise => srcs.count u
  | .exchange | .none => 0

/-! ## One pass of the connection loop -/

/-- The proto of an inserted node. -/
def Hublike (proto : LayerProto) : Prop :=
  proto.type ∈ [.kSlice, .kConcate, .kSplit] ∧ proto.partitionDim = -1

/-- `g` is `base` with inserted nodes called `names`; a node `u` of `base` has `outs u` destinations. -/
structure Named (base : NetGraph) (names : List String) (outs : Nat → Nat) (g : NetGraph) : Prop where
  grown : base.size ≤ g.size
  nodes : g.nodes = base.nodes ++ List.range' base.size (g.size - base.size)
  listed : ∀ u ∈ g.nodes, u < g.size
  label : ∀ u < base.size, (g.node u).label = (base.node u).label
  inserted : ∀ u, base.size ≤ u → u < g.size → Hublike (g.node u).proto
  names : g.nodes.map (fun u => (g.node u).name) = base.nodes.map (fun u => (base.node u).name) ++ names
  outs : ∀ u < base.size, (g.node u).dstnodes.length = outs u

section Named

variable {names : List String} {outs : Nat → Nat}

theorem Named.start (listed : ∀ u ∈ base.nodes, u < base.size) :
    Named base [] (fun u => (base.node u).dstnodes.length) base :=
  ⟨le_rfl, by simp, listed, fun _ _ => rfl, fun _ low high => absurd low (not_le.mpr high),
    (List.append_nil _).symm, fun _ _ => rfl⟩

theorem name_of_label {u v : Node LayerProto} (h : u.label = v.label) : u.name = v.name := congrArg Prod.fst h

theorem proto_of_label {u v : Node LayerProto} (h : u.label = v.label) : u.proto = v.proto :=
  congrArg (fun label => label.2.2.2) h

theorem Named.name (h : Named base names outs g) {u : Nat} (below : u < base.size) :
    (g.node u).name = (base.node u).name :=
  name_of_label (h.label u below)

theorem Named.addEdges (h : Named base names outs g) (es : List (Nat × Nat)) :
    Named base names (fun u => outs u + (es.map Prod.fst).count u) (g.addEdges es) := by
  refine ⟨?_, ?_, ?_, fun u hu => (Graph.addEdges_label es).trans (h.label u hu), fun u low high => ?_, ?_,
    fun u hu => ?_⟩
  · rw [Graph.addEdges_size]
    exact h.grown
  · rw [Graph.addEdges_nodes, Graph.addEdges_size, h.nodes]
  · rw [Graph.addEdges_nodes, Graph.addEdges_size]
    exact h.listed
  · rw [Graph.addEdges_size] at high
    rw [proto_of_label (Graph.addEdges_label es)]
    exact h.inserted u low high
  · rw [Graph.addEdges_nodes, ← h.names]
    exact List.map_congr_left fun u _ => name_of_label (Graph.addEdges_label es)
  · have added : ((es.filter (·.1 = u)).map Prod.snd).length = (es.map Prod.fst).count u := by
      rw [List.length_map, List.count_eq_length_filter, List.filter_map, List.length_map]
      rfl
    rw [Graph.addEdges_node, List.length_append, added, h.outs u hu]

theorem Named.insertNode (h : Named base names outs g) (proto : LayerProto)
    (hub : Hublike proto) :
    Named base (names ++ [proto.name]) outs (insertNode g proto).1 := by
  have grown := h.grown
  have old (u : Nat) (hu : u < g.size) : (NeuralNet.insertNode g proto).1.node u = g.node u :=
    (Graph.addNode_node _).trans (if_neg hu.ne)
  have nodes : (NeuralNet.insertNode g proto).1.nodes = g.nodes ++ [g.size] := rfl
  have size : (NeuralNet.insertNode g proto).1.size = g.size + 1 := rfl
  refine ⟨by omega, ?_, ?_, fun u hu => ?_, fun u low high => ?_, ?_, fun u hu => ?_⟩
  · have last : base.size + (g.size - base.size) = g.size := by omega
    rw [nodes, size, h.nodes, Nat.succ_sub grown, List.range'_1_concat, last, List.append_assoc]
  · intro u hu
    rw [nodes] at hu
    rcases List.mem_append.mp hu with before | here
    · exact (h.listed u before).trans (Nat.lt_succ_self _)
    · rw [List.mem_singleton.mp here, size]
      exact Nat.lt_succ_self _
  · rw [old u (hu.trans_le grown), h.label u hu]
  · rcases Nat.lt_or_ge u g.size with before | here
    · rw [old u before]
      exact h.inserted u low before
    · obtain rfl : u = g.size := by omega
      rwa [insertNode_proto]
  · rw [nodes, List.map_append, ← List.append_assoc, ← h.names]
    congr 1
    · exact List.map_congr_left fun u hu => by rw [old u (h.listed u hu)]
    · simp [NeuralNet.insertNode, Graph.addNode_node]
  · rw [old u (hu.trans_le grown), h.outs u hu]

/-- Only the values of `outs` at nodes of `base` matter. -/
theorem Named.congr {outs' : Nat → Nat} (h : Named base names outs g) (same : ∀ u < base.size, outs u = outs' u) :
    Named base names outs' g :=
  { h with outs := fun u hu => by rw [h.outs u hu, same u hu] }

/-- The edges that a layer node gets when it feeds an inserted one. -/
theorem count_edges_src {k src u : Nat} (dsts : List Nat) (other : u ≠ k) :
    (((src, k) :: dsts.map (k, ·)).map Prod.fst).count u = [src].count u := by
  simp [List.count_cons, List.count_replicate, Function.comp_def, Ne.symm other]

theorem count_edges_dst {k dst u : Nat} (srcs : List Nat) (other : u ≠ k) :
    (((k, dst) :: srcs.map (·, k)).map Prod.fst).count u = srcs.count u := by
  simp [Function.comp_def, Ne.symm other]

theorem sliceNode_named (h : Named base names outs g) {src k : Nat} {dsts : List Nat}
    (hg : sliceNode g src dsts true = .ok (g', k)) :
    Named base (names ++ [(g.node src).name ++ "<"]) (fun u => outs u + [src].count u) g' := by
  obtain ⟨first, -, hg⟩ := Run.do_ok.mp hg
  cases hg
  refine ((h.insertNode ⟨_, .kSlice, _, _, _, _, _⟩ (by simp [Hublike])).addEdges ((src, g.size) :: dsts.map (g.size, ·))).congr ?_
  intro u hu
  rw [count_edges_src dsts (hu.trans_le h.grown).ne]

theorem splitNode_named (h : Named base names outs g) (src : Nat) (dsts : List Nat) :
    Named base (names ++ [(g.node src).name ++ "+"]) (fun u => outs u + [src].count u)
      (splitNode g src dsts).1 := by
  refine ((h.insertNode ⟨_, .kSplit, _, _, _, _, _⟩ (by simp [Hublike])).addEdges ((src, g.size) :: dsts.map (g.size, ·))).congr ?_
  intro u hu
  rw [count_edges_src dsts (hu.trans_le h.grown).ne]

theorem concateNodes_named (h : Named base names outs g) {srcs : List Nat} {dst k : Nat}
    (hg : concateNodes g srcs dst = .ok (g', k)) :
    Named base (names ++ [">" ++ (g.node dst).name]) (fun u => outs u + srcs.count u) g' := by
  obtain ⟨first, -, hg⟩ := Run.do_ok.mp hg
  cases hg
  refine ((h.insertNode ⟨_, .kConcate, _, _, _, _, _⟩ (by simp [Hublike])).addEdges ((g.size, dst) :: srcs.map (·, g.size))).congr ?_
  intro u hu
  rw [count_edges_dst srcs (hu.trans_le h.grown).ne]

theorem concateAll_named (h : Named base names outs g) {srcs dsts : List Nat} (high : ∀ v ∈ dsts, v < base.size)
    (hg : concateAll srcs dsts g = .ok g') :
    Named base (names ++ dsts.map fun v => ">" ++ (base.node v).name)
      (fun u => outs u + dsts.length * srcs.count u) g' := by
  induction dsts generalizing names outs g with
  | nil =>
    cases hg
    simpa using h
  | cons d dsts ih =>
    rw [concateAll, List.foldlM_cons] at hg
    obtain ⟨next, first, rest⟩ := Run.do_ok.mp hg
    obtain ⟨⟨next', k⟩, made, same⟩ := Run.do_ok.mp first
    cases same
    have step := concateNodes_named h made
    rw [h.name (high d (by simp))] at step
    have last := ih step (fun v hv => high v (by simp [hv])) rest
    rw [List.append_assoc] at last
    refine last.congr fun u _ => ?_
    rw [List.length_cons]
    ring

/-- A pass with the names that it inserts and the edges that it adds. -/
theorem wire_named (h : Named base names outs g) {w : Wiring} {srcs dsts : List Nat}
    (low : ∀ u ∈ srcs, u < base.size) (high : ∀ v ∈ dsts, v < base.size) (hg : wire w srcs dsts g = .ok g') :
    Named base (names ++ w.inserts (srcs.map fun u => (base.node u).name) (dsts.map fun u => (base.node u).name))
      (fun u => outs u + w.outs srcs dsts u) g' := by
  have src {s : Nat} (first : front srcs = .ok s) : srcs.take 1 = [s] ∧ (g.node s).name = (base.node s).name :=
    ⟨front_ok.mp first, h.name (low s (mem_of_take (front_ok.mp first)))⟩
  cases w with
  | slice =>
    obtain ⟨s, first, hg⟩ := Run.do_ok.mp hg
    obtain ⟨⟨next, k⟩, made, same⟩ := Run.do_ok.mp hg
    cases same
    obtain ⟨take, name⟩ := src first
    simpa [Wiring.inserts, Wiring.outs, ← List.map_take, take, ← name] using sliceNode_named h made
  | edge =>
    obtain ⟨s, first, hg⟩ := Run.do_ok.mp hg
    obtain ⟨d, second, hg⟩ := Run.do_ok.mp hg
    cases hg
    have added : Named base names (fun u => outs u + [s].count u) (g.addEdge s d) := h.addEdges [(s, d)]
    simpa [Wiring.inserts, Wiring.outs, src first] using added
  | split =>
    obtain ⟨s, first, hg⟩ := Run.do_ok.mp hg
    cases hg
    obtain ⟨take, name⟩ := src first
    simpa [Wiring.inserts, Wiring.outs, ← List.map_take, take, ← name] using splitNode_named h s dsts
  | concate => simpa [Wiring.inserts, Wiring.outs, Function.comp_def] using concateAll_named h high hg
  | exchange =>
    obtain ⟨r, sliced, hg⟩ := Run.do_ok.mp hg
    obtain ⟨-, rfl⟩ := sliceAll_ok.mp sliced
    cases hg
    simpa [Wiring.inserts, Wiring.outs] using h
  | pairwise =>
    rw [wire] at hg
    split at hg
    · rename_i same
      cases hg
      simpa [Wiring.inserts, Wiring.outs, List.map_fst_zip same.le] using h.addEdges (srcs.zip dsts)
    · cases hg
  | none =>
    cases hg
    simpa [Wiring.inserts, Wiring.outs] using h

end Named

/-! ## The nodes of the layers -/

/-- The labels of the nodes of a layer. -/
def layerLabels (npartitions : Nat) (layer : LayerProto) : List (String × String × Int × LayerProto) :=
  if layer.partitionDim = 0 ∨ layer.partitionDim = 1 then
    (List.range npartitions).map fun i => (partitionNode layer i).label
  else [(layer.name, layer.name, 0, layer)]

theorem layerLabels_names (n : Nat) (layer : LayerProto) :
    (layerLabels n layer).map Prod.fst = nodeNames n layer := by
  rw [layerLabels, nodeNames]
  split
  · rw [List.map_map]
    rfl
  · rfl

/-- The nodes of the layers. -/
structure Labelled (n : Nat) (net : List LayerProto) (m : Made) : Prop where
  numbered : m.graph.nodes = List.range m.graph.size
  labels : m.graph.nodes.map (fun u => (m.graph.node u).label) = net.flatMap (layerLabels n)
  nodes : ∀ name us, m.name2nodes name = some us → ∃ layer, declared net name = some layer ∧
    us.map (fun u => (m.graph.node u).label) = layerLabels n layer

theorem Labelled.start : Labelled n [] Made.empty where
  numbered := rfl
  labels := rfl
  nodes name us h := by simp [Made.empty] at h

theorem map_name {us : List Nat} : us.map (fun u => (g.node u).name) = (us.map fun u => (g.node u).label).map Prod.fst := by
  rw [List.map_map]
  rfl

theorem Labelled.names (h : Labelled n net m) :
    m.graph.nodes.map (fun u => (m.graph.node u).name) = net.flatMap (nodeNames n) := by
  rw [map_name, h.labels, List.map_flatMap]
  exact List.flatMap_congr fun layer _ => layerLabels_names n layer

theorem layerNodes_labels {layer : LayerProto} {nodes : List (Node LayerProto)} (h : layerNodes n layer = .ok nodes) :
    nodes.map Node.label = layerLabels n layer := by
  rw [layerNodes] at h
  split at h
  · rename_i dim
    cases h
    rw [layerLabels, if_pos dim, List.map_map]
    rfl
  · rename_i dim
    split at h
    · cases h
      rw [layerLabels, if_neg dim]
      rfl
    · cases h

theorem addNodes_nodes (g : NetGraph) (nodes : List (Node LayerProto)) :
    (addNodes g nodes).1.nodes = g.nodes ++ (addNodes g nodes).2 := by
  induction nodes generalizing g with
  | nil => simp [addNodes]
  | cons node nodes ih =>
    rw [addNodes]
    refine (ih (g.addNode node).1).trans ?_
    simp [Graph.addNode]

theorem Labelled.add {m' : Made} {layer : LayerProto} (made : MadeOf n net m) (h : Labelled n net m)
    (pass : m.add n layer = .ok m') : Labelled n (net ++ [layer]) m' := by
  obtain ⟨nodes, us, hnodes, added, here, elsewhere, -⟩ := Made.add_ok pass
  have labels := layerNodes_labels hnodes
  have size := addNodes_size m.graph nodes
  have listed := addNodes_nodes m.graph nodes
  have numbers := addNodes_snd m.graph nodes
  have old := fun u (hu : u < m.graph.size) => addNodes_old m.graph nodes hu
  have new := addNodes_new m.graph nodes
  simp only [added] at size listed numbers old new
  have newLabels : us.map (fun u => (m'.graph.node u).label) = layerLabels n layer := by
    rw [← labels, ← new, List.map_map]
    rfl
  have kept (vs : List Nat) (below : ∀ u ∈ vs, u < m.graph.size) :
      vs.map (fun u => (m'.graph.node u).label) = vs.map fun u => (m.graph.node u).label :=
    List.map_congr_left fun u hu => by rw [old u (below u hu)]
  refine ⟨?_, ?_, fun name vs hvs => ?_⟩
  · have joined : List.range' 0 m.graph.size ++ List.range' (0 + m.graph.size) nodes.length = _ := List.range'_append_1
    rw [Nat.zero_add] at joined
    rw [listed, h.numbered, numbers, size, List.range_eq_range', joined, ← List.range_eq_range']
  · rw [listed, List.map_append, newLabels, kept, h.labels, List.flatMap_append, List.flatMap_singleton]
    rw [h.numbered]
    exact fun u hu => List.mem_range.mp hu
  · rw [declared_append]
    by_cases same : name = layer.name
    · subst same
      rw [here] at hvs
      cases hvs
      exact ⟨layer, Function.update_self .., newLabels⟩
    · rw [elsewhere name same] at hvs
      obtain ⟨layer', hl, labels'⟩ := h.nodes name vs hvs
      refine ⟨layer', by rw [Function.update_of_ne same, hl], ?_⟩
      rw [kept vs (made.below name vs hvs), labels']

theorem createNodes_labelled (h : createNodes n net = .ok m) : Labelled n net m :=
  (Run.foldlM_inv (fun done m => MadeOf n done m ∧ Labelled n done m)
    (fun _ _ _ _ inv pass => ⟨inv.1.add pass, inv.2.add inv.1 pass⟩) ⟨MadeOf.start, Labelled.start⟩ h).2

/-! ## The connection loop -/

/-- The connections of one layer: its source layers, each with the layer itself. -/
def layerLinks (net : List LayerProto) (layer : LayerProto) : List (LayerProto × LayerProto) :=
  layer.srclayers.filterMap fun srcname => (declared net srcname).map fun src => (src, layer)

/-- The declared connections in the order of the loop. -/
def links (net : List LayerProto) : List (LayerProto × LayerProto) := net.flatMap (layerLinks net)

/-- The case of the loop that serves a connection. -/
def linkWiring (factory : Factory) (link : LayerProto × LayerProto) : Wiring :=
  wiring link.1.partitionDim link.2.partitionDim (factory link.2.type).srcNeuronConnection

/-- The names of the nodes inserted for a connection. -/
def linkNames (factory : Factory) (n : Nat) (link : LayerProto × LayerProto) : List String :=
  (linkWiring factory link).inserts (nodeNames n link.1) (nodeNames n link.2)

/-- The invariant rule of the connection loop, with the connections made so far. -/
theorem connect_links (made : MadeOf n net m)
    (Inv : List (LayerProto × LayerProto) → NetGraph → Prop)
    (pass : ∀ done src layer srcnodes nodes s s', src ∈ net → layer ∈ net →
      m.name2nodes src.name = some srcnodes → m.name2nodes layer.name = some nodes → Inv done s →
      wire (linkWiring factory (src, layer)) srcnodes nodes s = .ok s' → Inv (done ++ [(src, layer)]) s')
    (start : Inv [] m.graph) (h : connect factory net m = .ok g) : Inv (links net) g := by
  refine Run.foldlM_inv_split (fun done s => Inv (done.flatMap (layerLinks net)) s) ?_ start h
  intro done layer rest s s' whole inv run
  have mem : layer ∈ net := by simp [whole]
  obtain ⟨_, _, run⟩ := Run.do_ok.mp run
  have all := Run.foldlM_inv
    (fun names s => Inv (done.flatMap (layerLinks net) ++
      names.filterMap fun srcname => (declared net srcname).map fun src => (src, layer)) s)
    (fun names srcname s s' inv run => ?_) (by simpa using inv) run
  · simpa [layerLinks] using all
  · obtain ⟨nodes, srcnodes, src, hn, hs, hp, wired⟩ := connectSrc_ok run
    rw [made.proto] at hp
    obtain ⟨srcMem, rfl⟩ := declared_mem hp
    have next := pass _ src layer srcnodes nodes s s' srcMem mem hs hn inv wired
    simpa [hp] using next

/-- The number of edges that a connection adds at the layer node `u`. -/
def linkOuts (factory : Factory) (m : Made) (link : LayerProto × LayerProto) (u : Nat) : Nat :=
  match m.name2nodes link.1.name, m.name2nodes link.2.name with
  | some srcnodes, some nodes => (linkWiring factory link).outs srcnodes nodes u
  | _, _ => 0

theorem connect_named (made : MadeOf n net m) (labelled : Labelled n net m)
    (distinct : (net.map LayerProto.name).Nodup) (h : connect factory net m = .ok g) :
    Named m.graph ((links net).flatMap (linkNames factory n))
      (fun u => ((links net).map (linkOuts factory m · u)).sum) g := by
  refine connect_links made
    (fun done s => Named m.graph (done.flatMap (linkNames factory n))
      (fun u => (done.map (linkOuts factory m · u)).sum) s) ?_ ?_ h
  · intro done src layer srcnodes nodes s s' srcMem mem hs hn inv wired
    have next := wire_named inv (made.below _ _ hs) (made.below _ _ hn) wired
    have names {layer : LayerProto} (mem : layer ∈ net) {us : List Nat} (hus : m.name2nodes layer.name = some us) :
        us.map (fun u => (m.graph.node u).name) = nodeNames n layer := by
      obtain ⟨layer', hl, labels⟩ := labelled.nodes _ _ hus
      rw [declared_of_nodup distinct mem] at hl
      cases hl
      rw [map_name, labels, layerLabels_names]
    rw [names srcMem hs, names mem hn] at next
    simpa [linkNames, linkOuts, hs, hn] using next
  · have inside : ∀ u ∈ m.graph.nodes, u < m.graph.size := by
      rw [labelled.numbered]
      exact fun u => List.mem_range.mp
    refine (Named.start inside).congr fun u _ => ?_
    have none : (m.graph.node u).dstnodes = [] :=
      List.eq_nil_iff_forall_not_mem.mpr fun v hv => made.empty u v (.inl hv)
    simp [none]

/-! ## The Split pass -/

theorem eraseNamed_length {name : String} {us rest : List Nat} (h : g.eraseNamed name us = .ok rest) :
    rest.length + 1 = us.length := by
  induction us generalizing rest with
  | nil => cases h
  | cons w us ih =>
    rw [Graph.eraseNamed] at h
    split at h
    · cases h
      rfl
    · obtain ⟨rest', erased, h⟩ := Run.do_ok.mp h
      cases h
      rw [List.length_cons, List.length_cons, ih erased]

section Named

variable {names : List String} {outs : Nat → Nat}

/-- `RemoveEdge` takes one destination away. -/
theorem Named.removeEdge (h : Named base names outs g) {node dst : Nat} (hg : g.removeEdge node dst = .ok g') :
    Named base names (Function.update outs node (outs node - 1)) g' := by
  have shrinks := removeEdge_shrinks hg
  obtain ⟨mid, first, second⟩ := Run.do_ok.mp hg
  obtain ⟨dsts, hdsts, first⟩ := Run.do_ok.mp first
  obtain ⟨srcs, hsrcs, second⟩ := Run.do_ok.mp second
  cases first
  cases second
  refine ⟨?_, ?_, ?_, fun u hu => (shrinks.label u).trans (h.label u hu), fun u low high => ?_, ?_,
    fun u hu => ?_⟩
  · rw [shrinks.size]
    exact h.grown
  · rw [shrinks.size]
    exact h.nodes
  · rw [shrinks.size]
    exact h.listed
  · rw [shrinks.size] at high
    rw [proto_of_label (shrinks.label u)]
    exact h.inserted u low high
  · rw [← h.names]
    exact List.map_congr_left fun u _ => name_of_label (shrinks.label u)
  · by_cases here : u = node
    · subst here
      have less := eraseNamed_length hdsts
      have before := h.outs u hu
      rw [Function.update_self, Graph.modify_node]
      split_ifs with loop
      · subst loop
        simp only [Graph.modify_node, if_pos]
        omega
      · simp only [Graph.modify_node, if_pos]
        omega
    · rw [shrinks.other u here, Function.update_of_ne here, h.outs u hu]

theorem Named.removeEdges (h : Named base names outs g) {node : Nat} {ds : List Nat}
    (hg : ds.foldlM (fun g dst => g.removeEdge node dst) g = .ok g') :
    Named base names (Function.update outs node (outs node - ds.length)) g' := by
  induction ds generalizing g outs with
  | nil =>
    cases hg
    simpa using h
  | cons d ds ih =>
    rw [List.foldlM_cons] at hg
    obtain ⟨next, first, rest⟩ := Run.do_ok.mp hg
    have last := ih (h.removeEdge first) rest
    rwa [Function.update_idem, Function.update_self, Nat.sub_sub, Nat.add_comm 1] at last

end Named

/-- The Split pass adds a node for every node that it splits. -/
theorem splitPass_named {oldnodes : List Nat} (distinct : oldnodes.Nodup) (inside : ∀ u ∈ oldnodes, u < g.size)
    (listed : ∀ u ∈ g.nodes, u < g.size) (h : splitPass factory oldnodes g = .ok g') :
    ∃ outs, Named g ((oldnodes.filter (Splits factory g)).map fun u => (g.node u).name ++ "+") outs g' := by
  have all : Named g ((oldnodes.filter (Splits factory g)).map fun u => (g.node u).name ++ "+")
      (fun u => if u ∈ oldnodes ∧ Splits factory g u then 1 else (g.node u).dstnodes.length) g' := by
    refine Run.foldlM_inv_split
      (fun done s => Named g ((done.filter (Splits factory g)).map fun u => (g.node u).name ++ "+")
        (fun u => if u ∈ done ∧ Splits factory g u then 1 else (g.node u).dstnodes.length) s) ?_ ?_ h
    · intro done node rest s s' whole inv pass
      have below : node < g.size := inside node (by simp [whole])
      have new : node ∉ done := by
        rw [whole] at distinct
        exact fun h => (List.nodup_append.mp distinct).2.2 node h node (by simp) rfl
      have dsts : (s.node node).dstnodes.length = (g.node node).dstnodes.length := by
        rw [inv.outs node below, if_neg fun h => new h.1]
      have type : (s.node node).proto = (g.node node).proto := proto_of_label (inv.label node below)
      rw [splitDst, dsts, type] at pass
      split at pass
      · rename_i several
        have splits : Splits factory g node := several
        obtain ⟨mid, removed, pass⟩ := Run.do_ok.mp pass
        cases pass
        have moved := inv.removeEdges removed
        have next := splitNode_named moved node (s.node node).dstnodes
        rw [moved.name below] at next
        rw [List.filter_append, List.filter_cons_of_pos (by simpa using splits), List.filter_nil, List.map_append]
        refine next.congr fun u _ => ?_
        by_cases here : u = node
        · subst here
          rw [Function.update_self, dsts]
          simp [new, splits]
        · simp [here, Ne.symm here]
      · rename_i few
        have single : ¬ Splits factory g node := few
        cases pass
        rw [List.filter_append, List.filter_cons_of_neg (by simpa using single), List.filter_nil, List.append_nil]
        refine inv.congr fun u _ => ?_
        by_cases here : u = node
        · subst here
          simp [single]
        · simp [here]
    · simpa using Named.start listed
  exact ⟨_, all⟩

end Singa.NeuralNet
