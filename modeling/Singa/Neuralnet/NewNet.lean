import Singa.Neuralnet.Resolve

/-!
# What a new net is like

Whatever the configuration, the nodes of the graph are listed once, so the ids
of the params of a new net are distinct. Its slice tables are empty. The layers
with their ids depend on the configuration alone, not on shapes or blobs.
-/

namespace Singa
set_option autoImplicit false

/-- The ids of `net->params()`. -/
def Net.ids (net : Net) : List Nat := net.layers.flatMap NetLayer.params

namespace NeuralNet

variable {g g' : NetGraph} {n fuel : Nat} {factory : Factory} {layers : List LayerConf}
  {shape shape' : Nat → Nat → List Nat} {base base' : Nat} {b b' : Builder}

/-! ## Nodes -/

/-- The nodes are listed once each. -/
def Listed (g : NetGraph) : Prop := g.nodes.Perm (List.range g.size)

theorem Listed.addEdges (h : Listed g) (edges : List (Nat × Nat)) : Listed (g.addEdges edges) := by
  rw [Listed, Graph.addEdges_nodes, Graph.addEdges_size]
  exact h

theorem Listed.insertNode (h : Listed g) (proto : LayerProto) : Listed (insertNode g proto).1 := by
  unfold Listed
  change (g.nodes ++ [g.size]).Perm (List.range (g.size + 1))
  rw [List.range_succ]
  exact h.append_right _

theorem Listed.splitNode (h : Listed g) (srcnode : Nat) (dstnodes : List Nat) :
    Listed (splitNode g srcnode dstnodes).1 :=
  ((h.insertNode _).addEdges [(srcnode, g.size)]).addEdges _

theorem Listed.sliceNode {srcnode node : Nat} {dstnodes : List Nat} {connectDst : Bool} (h : Listed g)
    (run : sliceNode g srcnode dstnodes connectDst = .ok (g', node)) : Listed g' := by
  obtain ⟨first, -, run⟩ := Run.do_ok.mp run
  have edge := (h.insertNode {
    name := (g.node srcnode).name ++ "<", type := .kSlice
    partitionId := (g.node srcnode).proto.partitionId
    sliceDim := some (g.node first).proto.partitionDim }).addEdges [(srcnode, g.size)]
  cases connectDst
  · cases run
    exact edge
  · cases run
    exact edge.addEdges _

theorem Listed.concateNodes {dstnode node : Nat} {srcnodes : List Nat} (h : Listed g)
    (run : concateNodes g srcnodes dstnode = .ok (g', node)) : Listed g' := by
  obtain ⟨first, -, run⟩ := Run.do_ok.mp run
  cases run
  exact ((h.insertNode _).addEdges [(g.size, dstnode)]).addEdges _

theorem Listed.concateAll {srcnodes nodes : List Nat} (h : Listed g) (run : concateAll srcnodes nodes g = .ok g') :
    Listed g' := by
  refine Run.foldlM_inv (fun _ s => Listed s) (fun _ node s s' inv pass => ?_) h run
  obtain ⟨⟨next, _⟩, made, pass⟩ := Run.do_ok.mp pass
  cases pass
  exact inv.concateNodes made

theorem Listed.wire {w : Wiring} {srcnodes nodes : List Nat} (h : Listed g) (run : wire w srcnodes nodes g = .ok g') :
    Listed g' := by
  cases w with
  | slice =>
    obtain ⟨srcnode, -, run⟩ := Run.do_ok.mp run
    obtain ⟨⟨next, _⟩, made, run⟩ := Run.do_ok.mp run
    cases run
    exact h.sliceNode made
  | edge =>
    obtain ⟨srcnode, -, run⟩ := Run.do_ok.mp run
    obtain ⟨node, -, run⟩ := Run.do_ok.mp run
    cases run
    exact h.addEdges [(srcnode, node)]
  | split =>
    obtain ⟨srcnode, -, run⟩ := Run.do_ok.mp run
    cases run
    exact h.splitNode srcnode nodes
  | concate => exact h.concateAll run
  | exchange =>
    obtain ⟨⟨mid, made⟩, slices, run⟩ := Run.do_ok.mp run
    refine Listed.concateAll ?_ run
    refine Run.foldlM_inv (fun _ s => Listed s.1) (fun _ srcnode s s' inv pass => ?_) h slices
    obtain ⟨⟨next, node⟩, here, pass⟩ := Run.do_ok.mp pass
    cases pass
    exact inv.sliceNode here
  | pairwise =>
    rw [NeuralNet.wire] at run
    split at run
    · cases run
      exact h.addEdges _
    · cases run
  | none =>
    cases run
    exact h

theorem Listed.splitDst {node : Nat} (h : Listed g) (run : splitDst factory g node = .ok g') : Listed g' := by
  rw [NeuralNet.splitDst] at run
  split at run
  · obtain ⟨mid, removed, run⟩ := Run.do_ok.mp run
    cases run
    refine Listed.splitNode ?_ node _
    refine Run.foldlM_inv (fun _ s => Listed s) (fun _ dst s s' inv pass => ?_) h removed
    obtain ⟨next, first, second⟩ := Run.do_ok.mp pass
    obtain ⟨_, -, first⟩ := Run.do_ok.mp first
    obtain ⟨_, -, second⟩ := Run.do_ok.mp second
    cases first
    cases second
    exact inv
  · cases run
    exact h

/-- Every node of the graph is listed once. -/
theorem createGraph_nodup {net : List LayerProto} (run : createGraph fuel factory net n = .ok g) : g.nodes.Nodup := by
  obtain ⟨m, c, sorted, split, created, connected, first, pass, last⟩ := createGraph_ok run
  have made := createNodes_madeOf created
  have listed : Listed c := by
    refine Run.foldlM_inv (fun _ s => Listed s) (fun _ layer s s' inv pass => ?_)
      (.of_eq (createNodes_labelled created).numbered) connected
    obtain ⟨_, -, pass⟩ := Run.do_ok.mp pass
    refine Run.foldlM_inv (fun _ s => Listed s) (fun _ srcname s s' inv pass => ?_) inv pass
    obtain ⟨nodes, srcnodes, src, -, -, -, wired⟩ := connectSrc_ok pass
    exact inv.wire wired
  have closed : Closed c := (connect_spans made.empty made.below connected).closed
  obtain ⟨node, size, perm⟩ := sort_numbered closed listed first
  have closed' : Closed sorted := by
    simpa only [Closed, Graph.Touches, node, size] using closed
  have listed' : Listed sorted := by
    rw [Listed, size]
    exact perm.trans listed
  have listedSplit : Listed split :=
    Run.foldlM_inv (fun _ s => Listed s) (fun _ _ _ _ inv pass => inv.splitDst pass) listed' pass
  obtain ⟨-, -, perm'⟩ := sort_numbered (splitPass_closed closed' pass) listedSplit last
  exact (perm'.trans listedSplit).nodup_iff.mpr List.nodup_range

/-! ## The setup loop -/

/-- Ids count up from `paramid`. -/
theorem addParams_ids (base : Nat) (name : String) : ∀ (paramName : String) (l : List (ParamConf × List Nat)) (b : Builder),
    (addParams base name paramName l b).2 = List.range' b.paramid l.length ∧
      (addParams base name paramName l b).1.paramid = b.paramid + l.length
  | _, [], _ => ⟨rfl, rfl⟩
  | _, (conf, shape) :: rest, b => by
    rw [addParams]
    refine ⟨congrArg (b.paramid :: ·) (addParams_ids base name _ rest _).1, (addParams_ids base name _ rest _).2.trans ?_⟩
    rw [List.length_cons, Nat.add_assoc, Nat.add_comm 1]

/-- Params with their own ids, without slices and with data. Params with one owner have its blob, and so one
shape. -/
structure NewParams (count : Nat) (params : Nat → NetParam) : Prop where
  id : ∀ id < count, (params id).id = id
  slices : ∀ id, (params id).slices = {}
  positive : ∀ id, 0 < (params id).shape.prod
  owner : ∀ id < count, (params id).owner < count
  shape : ∀ i < count, ∀ j < count, (params i).owner = (params j).owner → (params i).shape = (params j).shape

theorem addParams_new (base : Nat) (name : String) : ∀ (paramName : String) (l : List (ParamConf × List Nat)) (b : Builder),
    (∀ e ∈ l, 0 < e.2.prod) → NewParams b.paramid b.params →
      NewParams (addParams base name paramName l b).1.paramid (addParams base name paramName l b).1.params
  | _, [], _, _, new => new
  | _, (conf, shape) :: rest, b, pos, new => by
    rw [addParams]
    refine addParams_new base name _ rest _ (fun e he => pos e (List.mem_cons_of_mem _ he)) ?_
    dsimp only
    have old (id : Nat) (low : id < b.paramid + 1) (other : id ≠ b.paramid) : id < b.paramid := by omega
    refine ⟨fun id low => ?_, ?_, ?_, fun id low => ?_, fun i lowI j lowJ => ?_⟩
    · by_cases here : id = b.paramid
      · rw [here, Function.update_self]
      · rw [Function.update_of_ne here]
        exact new.id id (old id low here)
    · exact (Function.forall_update_iff _ fun _ (p : NetParam) => p.slices = {}).mpr ⟨rfl, fun id _ => new.slices id⟩
    · exact (Function.forall_update_iff _ fun _ (p : NetParam) => 0 < p.shape.prod).mpr
        ⟨pos (conf, shape) List.mem_cons_self, fun id _ => new.positive id⟩
    · by_cases here : id = b.paramid
      · rw [here, Function.update_self]
        exact Nat.lt_succ_self _
      · rw [Function.update_of_ne here]
        exact (new.owner id (old id low here)).trans (Nat.lt_succ_self _)
    · -- the new param is the only one that has itself as its owner
      by_cases hereI : i = b.paramid
      · by_cases hereJ : j = b.paramid
        · rw [hereI, hereJ]
          exact fun _ => rfl
        · rw [hereI, Function.update_self, Function.update_of_ne hereJ]
          exact fun same => absurd same (new.owner j (old j lowJ hereJ)).ne'
      · by_cases hereJ : j = b.paramid
        · rw [hereJ, Function.update_self, Function.update_of_ne hereI]
          exact fun same => absurd same (new.owner i (old i lowI hereI)).ne
        · rw [Function.update_of_ne hereI, Function.update_of_ne hereJ]
          exact new.shape i (old i lowI hereI) j (old j lowJ hereJ)

/-- Sharing keeps what new params are like. -/
theorem NewParams.share {count : Nat} {params : Nat → NetParam} (h : NewParams count params) (p : Nat) {q : Nat}
    (source : q < count) : NewParams count (Function.update params p (sharing (params p) (params q))) := by
  refine ⟨fun id low => ?_, ?_, ?_, fun id low => ?_, fun i lowI j lowJ => ?_⟩
  · by_cases here : id = p
    · subst here
      rw [Function.update_self]
      exact h.id id low
    · rw [Function.update_of_ne here]
      exact h.id id low
  · exact (Function.forall_update_iff _ fun _ (p : NetParam) => p.slices = {}).mpr ⟨h.slices q, fun id _ => h.slices id⟩
  · exact (Function.forall_update_iff _ fun _ (p : NetParam) => 0 < p.shape.prod).mpr ⟨h.positive q, fun id _ => h.positive id⟩
  · by_cases here : id = p
    · rw [here, Function.update_self]
      exact h.owner q source
    · rw [Function.update_of_ne here]
      exact h.owner id low
  · by_cases hereI : i = p
    · by_cases hereJ : j = p
      · rw [hereI, hereJ]
        exact fun _ => rfl
      · rw [hereI, Function.update_self, Function.update_of_ne hereJ]
        exact h.shape q source j lowJ
    · by_cases hereJ : j = p
      · rw [hereJ, Function.update_self, Function.update_of_ne hereI]
        exact h.shape i lowI q source
      · rw [Function.update_of_ne hereI, Function.update_of_ne hereJ]
        exact h.shape i lowI j lowJ

/-- The layers set up so far have ids of their own. -/
structure OwnIds (b : Builder) : Prop where
  below : ∀ v, ∀ id ∈ b.paramsOf v, id < b.paramid
  nodup : ∀ v, (b.paramsOf v).Nodup
  apart : ∀ u v, u ≠ v → (b.paramsOf u).Disjoint (b.paramsOf v)

/-- What a pass of the setup loop leaves: the ids of one layer. -/
theorem setupNode_ids {u : Nat} (h : setupNode layers shape base g b u = .ok b') :
    ∃ confs, layerParams layers (g.node (layerAt g u)).proto.type (g.node u).proto = .ok confs ∧
      b'.layer = Function.update b.layer (layerAt g u) (some ⟨(g.node u).proto, List.range' b.paramid confs.length⟩) ∧
      b'.paramid = b.paramid + confs.length := by
  obtain ⟨confs, l, read, len, -, added⟩ := setupNode_added h
  obtain ⟨ids, paramid⟩ := addParams_ids base (g.node u).proto.name "$" l b
  obtain ⟨-, -, layer⟩ := addParams_groups base (g.node u).proto.name "$" l b
  rw [len] at ids paramid
  refine ⟨confs, read, ?_⟩
  rw [added _ _ rfl, ← ids, ← layer]
  by_cases dim : (g.node u).proto.partitionDim = 0
  · rw [if_pos dim]
    exact ⟨rfl, paramid⟩
  · rw [if_neg dim]
    exact ⟨rfl, paramid⟩

theorem OwnIds.pass {u : Nat} (inv : OwnIds b) (h : setupNode layers shape base g b u = .ok b') : OwnIds b' := by
  obtain ⟨confs, -, layer, paramid⟩ := setupNode_ids h
  have here : b'.paramsOf (layerAt g u) = List.range' b.paramid confs.length := by
    rw [Builder.paramsOf, layer, Function.update_self]
    rfl
  have other {v : Nat} (ne : v ≠ layerAt g u) : b'.paramsOf v = b.paramsOf v := by
    rw [Builder.paramsOf, layer, Function.update_of_ne ne, Builder.paramsOf]
  have fresh {v : Nat} : (b.paramsOf v).Disjoint (List.range' b.paramid confs.length) := by
    refine List.disjoint_left.mpr fun id old new => ?_
    have low := inv.below v id old
    have high := (List.mem_range'_1.mp new).1
    omega
  refine ⟨fun v id mem => ?_, fun v => ?_, fun v w ne => ?_⟩
  · rw [paramid]
    by_cases same : v = layerAt g u
    · rw [same, here] at mem
      exact (List.mem_range'_1.mp mem).2
    · rw [other same] at mem
      have low := inv.below v id mem
      omega
  · by_cases same : v = layerAt g u
    · rw [same, here]
      exact List.nodup_range'
    · rw [other same]
      exact inv.nodup v
  · by_cases sameV : v = layerAt g u
    · rw [sameV, here, other fun sameW => ne (sameV.trans sameW.symm)]
      exact fresh.symm
    · rw [other sameV]
      by_cases sameW : w = layerAt g u
      · rw [sameW, here]
        exact fresh
      · rw [other sameW]
        exact inv.apart v w ne

theorem setupNode_new (pos : ∀ u k, 0 < (shape u k).prod) {u : Nat} (new : NewParams b.paramid b.params)
    (h : setupNode layers shape base g b u = .ok b') : NewParams b'.paramid b'.params := by
  obtain ⟨confs, l, -, -, shapes, added⟩ := setupNode_added h
  have params := addParams_new base (g.node u).proto.name "$" l b (fun e he => by
    obtain ⟨k, same⟩ := shapes e he
    rw [same]
    exact pos u k) new
  rw [added _ _ rfl]
  by_cases dim : (g.node u).proto.partitionDim = 0
  · rw [if_pos dim]
    exact params
  · rw [if_neg dim]
    exact params

/-! ## New nets -/

/-- A net as `NeuralNet::Create` returns it. -/
structure NewNet (net : Net) : Prop where
  nodup : net.ids.Nodup
  id : ∀ id ∈ net.ids, (net.params id).id = id
  slices : ∀ id, (net.params id).slices = {}
  positive : ∀ id, 0 < (net.params id).shape.prod
  shape : ∀ i ∈ net.ids, ∀ j ∈ net.ids, (net.params i).owner = (net.params j).owner →
    (net.params i).shape = (net.params j).shape

/-- The params of a layer, and those that `name2param` and the groups are made of, have been counted. -/
theorem OwnIds.entered_below (own : OwnIds b) {g : NetGraph} {id : Nat} (mem : id ∈ entered b (layersOf g b)) :
    id < b.paramid := by
  rw [entered, layersOf_params] at mem
  rcases List.mem_append.mp mem with mem | mem
  · obtain ⟨v, -, mem⟩ := List.mem_flatMap.mp mem
    exact own.below v id mem
  · obtain ⟨origin, -, mem⟩ := List.mem_flatMap.mp mem
    cases first : (b.shareParamLayers origin).head? with
    | none => simp [first] at mem
    | some v =>
      rw [first] at mem
      exact own.below v id mem

theorem OwnIds.copies_below (own : OwnIds b) {origin : String} {e : Nat × Nat} (mem : e ∈ replicaCopies b origin) :
    e.2 < b.paramid := by
  obtain ⟨v, -, mem⟩ := List.mem_flatMap.mp mem
  have source := (List.of_mem_zip mem).2
  cases first : (b.shareParamLayers origin).head? with
  | none => simp [first] at source
  | some u =>
    rw [first] at source
    exact own.below u e.2 source

theorem create_new {iterate : List String → List String} {conf : NetProto} {phase : Phase} {net : Net}
    (pos : ∀ u k, 0 < (shape u k).prod) (run : create fuel factory iterate shape base conf phase n = .ok net) :
    NewNet net := by
  obtain ⟨-, -, run⟩ := Run.do_ok.mp run
  obtain ⟨g, graph, run⟩ := Run.do_ok.mp run
  obtain ⟨b, setup, run⟩ := Run.do_ok.mp run
  obtain ⟨built, made, run⟩ := Run.do_ok.mp run
  obtain ⟨params, names, run⟩ := Run.do_ok.mp run
  obtain ⟨last, replicas, run⟩ := Run.do_ok.mp run
  cases run
  have start : OwnIds Builder.empty ∧ NewParams Builder.empty.paramid Builder.empty.params :=
    ⟨⟨fun _ id mem => absurd mem List.not_mem_nil, fun _ => List.nodup_nil, fun _ _ _ => List.disjoint_nil_left _⟩,
      fun id low => absurd low (Nat.not_lt_zero id), fun _ => rfl, fun _ => Nat.one_pos,
      fun id low => absurd low (Nat.not_lt_zero id), fun i low => absurd low (Nat.not_lt_zero i)⟩
  obtain ⟨own, new⟩ := Run.foldlM_inv (fun _ b => OwnIds b ∧ NewParams b.paramid b.params)
    (fun _ u b b' inv pass => ⟨inv.1.pass pass, setupNode_new pos inv.2 pass⟩) start setup
  have layers := (builtLayers_ok made).1
  have new := Run.foldlM_inv (fun _ p => NewParams b.paramid p) (fun _ name p p' inv pass => by
    rcases shareEntry_ok pass with rfl | ⟨i, j, -, -, entry, rfl⟩
    · exact inv
    · rw [layers, name2param_eq] at entry
      rcases enterParams_mem entry with ⟨mem, -⟩ | none
      · exact inv.share i (own.entered_below mem)
      · cases none) new names
  have new := Run.foldlM_inv (fun _ p => NewParams b.paramid p) (fun _ origin p p' inv pass => by
    refine Run.foldlM_inv_split (l := replicaCopies b origin) (fun _ p => NewParams b.paramid p)
      (fun done e rest p p' split inv pass => ?_) inv (shareReplicas_ok pass)
    rw [shareParam_ok pass]
    exact inv.share e.1 (own.copies_below (split ▸ List.mem_append_right done List.mem_cons_self))) new replicas
  have ids : (⟨built, last⟩ : Net).ids = g.nodes.flatMap b.paramsOf := by
    rw [Net.ids, layers, layersOf_params]
  have below (id : Nat) (mem : id ∈ (⟨built, last⟩ : Net).ids) : id < b.paramid := by
    rw [ids] at mem
    obtain ⟨v, -, mem⟩ := List.mem_flatMap.mp mem
    exact own.below v id mem
  refine ⟨?_, fun id mem => new.id id (below id mem), new.slices, new.positive,
    fun i hi j hj => new.shape i (below i hi) j (below j hj)⟩
  rw [ids]
  exact List.nodup_flatMap.mpr ⟨fun v _ => own.nodup v, (createGraph_nodup graph).imp fun ne => own.apart _ _ ne⟩

/-- The layers and their ids depend on the configuration alone. -/
theorem create_layers {iterate iterate' : List String → List String} {conf : NetProto} {phase : Phase} {net net' : Net}
    (run : create fuel factory iterate shape base conf phase n = .ok net)
    (run' : create fuel factory iterate' shape' base' conf phase n = .ok net') : net'.layers = net.layers := by
  obtain ⟨-, -, run⟩ := Run.do_ok.mp run
  obtain ⟨-, -, run'⟩ := Run.do_ok.mp run'
  obtain ⟨g, graph, run⟩ := Run.do_ok.mp run
  obtain ⟨g', graph', run'⟩ := Run.do_ok.mp run'
  obtain rfl := Except.ok.inj (graph.symm.trans graph')
  obtain ⟨b, setup, run⟩ := Run.do_ok.mp run
  obtain ⟨b', setup', run'⟩ := Run.do_ok.mp run'
  have same (nodes : List Nat) : ∀ b b' c c' : Builder, b'.layer = b.layer → b'.paramid = b.paramid →
      nodes.foldlM (setupNode (included conf phase) shape base g) b = .ok c →
      nodes.foldlM (setupNode (included conf phase) shape' base' g) b' = .ok c' → c'.layer = c.layer := by
    induction nodes with
    | nil =>
      intro b b' c c' layer _ run run'
      cases run
      cases run'
      exact layer
    | cons u nodes ih =>
      intro b b' c c' layer paramid run run'
      rw [List.foldlM_cons] at run run'
      obtain ⟨next, pass, run⟩ := Run.do_ok.mp run
      obtain ⟨next', pass', run'⟩ := Run.do_ok.mp run'
      obtain ⟨confs, read, layerNext, paramidNext⟩ := setupNode_ids pass
      obtain ⟨confs', read', layerNext', paramidNext'⟩ := setupNode_ids pass'
      obtain rfl := Except.ok.inj (read.symm.trans read')
      refine ih next next' c c' ?_ ?_ run run'
      · rw [layerNext, layerNext', layer, paramid]
      · rw [paramidNext, paramidNext', paramid]
  obtain ⟨built, made, run⟩ := Run.do_ok.mp run
  obtain ⟨built', made', run'⟩ := Run.do_ok.mp run'
  have layers := same g.nodes _ _ b b' rfl rfl setup setup'
  rw [builtLayers, layers] at made'
  obtain rfl := Except.ok.inj (made.symm.trans made')
  obtain ⟨_, -, run⟩ := Run.do_ok.mp run
  obtain ⟨_, -, run⟩ := Run.do_ok.mp run
  obtain ⟨_, -, run'⟩ := Run.do_ok.mp run'
  obtain ⟨_, -, run'⟩ := Run.do_ok.mp run'
  cases run
  cases run'
  rfl

end NeuralNet

end Singa
