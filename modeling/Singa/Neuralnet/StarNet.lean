import Singa.Neuralnet.NewNet

/-!
# Nets that are always made

Fully connected layers that read from one data layer, none of them partitioned,
make a graph that `Sort` and the passes after it leave in order. A net without
shared params comes out of `CreateNetFromGraph` with params that own themselves.
-/

namespace Singa
set_option autoImplicit false

/-! ## Sorting a star -/

namespace Graph

variable {π : Type} {g : Graph π} {u : Nat} {us : List Nat}

/-- The nodes `us` have edges from `u` alone, and there are no others. -/
structure Star (g : Graph π) (u : Nat) (us : List Nat) : Prop where
  root : (g.node u).srcnodes = []
  dsts : (g.node u).dstnodes = us
  leaf : ∀ v ∈ us, (g.node v).srcnodes = [u] ∧ (g.node v).dstnodes = []
  nodup : (u :: us).Nodup
  nodes : g.nodes.Perm (u :: us)

theorem foldl_push {s : Sorter} (new : ∀ v ∈ us, v ∉ s.visitSet) (nodup : us.Nodup) :
    us.foldl Sorter.push s = { s with visiting := s.visiting ++ us, visitSet := s.visitSet ++ us } := by
  induction us generalizing s with
  | nil => simp
  | cons v us ih =>
    obtain ⟨fresh, nodup⟩ := List.nodup_cons.mp nodup
    have pushed : s.push v = { s with visiting := s.visiting ++ [v], visitSet := s.visitSet ++ [v] } := by
      rw [Sorter.push, if_neg (new v List.mem_cons_self)]
    rw [List.foldl_cons, pushed, ih ?_ nodup]
    · simp
    · intro w hw
      have other : w ≠ v := fun same => fresh (same ▸ hw)
      simpa [other] using new w (List.mem_cons_of_mem v hw)

theorem Star.sources_eq (h : Star g u us) : g.sources = [u] := by
  have perm := h.nodes.filter fun w => (g.node w).srcnodes.isEmpty
  have leaves : us.filter (fun w => (g.node w).srcnodes.isEmpty) = [] := by
    refine List.filter_eq_nil_iff.mpr fun v hv => ?_
    rw [(h.leaf v hv).1]
    simp
  rw [List.filter_cons_of_pos (by rw [h.root]; rfl), leaves] at perm
  exact List.perm_singleton.mp perm

/-- The leaves are visited in their order. -/
theorem Star.visits (h : Star g u us) {done rest : List Nat} (split : us = done ++ rest) :
    Loop.run g.sortBody (rest.length + 1) ⟨rest, u :: done, u :: us⟩ = some (u :: us) := by
  induction rest generalizing done with
  | nil =>
    rw [List.append_nil] at split
    rw [split]
    exact Loop.run_inr rfl 0
  | cons v rest ih =>
    have hv : v ∈ us := by simp [split]
    obtain ⟨src, dst⟩ := h.leaf v hv
    have ready : g.visit (u :: done) v = true := by
      simp [visit, biDirection, src, h.root]
    have pass : g.sortBody ⟨v :: rest, u :: done, u :: us⟩ = .inl ⟨rest, u :: (done ++ [v]), u :: us⟩ := by
      rw [sortBody]
      simp only [ready, dst]
      rfl
    rw [List.length_cons, Loop.run_inl pass]
    exact ih (by simp [split])

/-- `Sort` puts the root first. -/
theorem Star.sort (h : Star g u us) {fuel : Nat} (enough : us.length + 2 ≤ fuel) :
    g.sort fuel = .ok { g with nodes := u :: us } := by
  obtain ⟨fresh, nodup⟩ := List.nodup_cons.mp h.nodup
  have first : g.sortBody ⟨[u], [], [u]⟩ = .inl ⟨us, [u], u :: us⟩ := by
    have ready : g.visit [] u = true := by
      simp [visit, biDirection, h.root]
    have pushed := foldl_push (s := ⟨[], [u], [u]⟩) (fun v hv => by
      simpa using fun same : v = u => fresh (same ▸ hv)) nodup
    rw [sortBody]
    simp only [ready, h.dsts]
    exact congrArg Sum.inl pushed
  have run : Loop.run g.sortBody (us.length + 2) ⟨[u], [], [u]⟩ = some (u :: us) := by
    rw [Loop.run_inl first]
    exact h.visits rfl
  refine Run.do_ok.mpr ⟨u :: us, ?_, if_pos h.nodes.length_eq.symm⟩
  rw [Run.ofLoop_eq_ok, h.sources_eq]
  exact Loop.run_mono run enough

/-- Sorting does not change the edges. -/
theorem Star.sorted (h : Star g u us) : Star { g with nodes := u :: us } u us :=
  ⟨h.root, h.dsts, h.leaf, h.nodup, .refl _⟩

end Graph

namespace NeuralNet

variable {g : NetGraph} {n : Nat} {layers : List LayerConf} {shape : Nat → Nat → List Nat} {base : Nat} {b : Builder}

/-! ## Params that share nothing -/

/-- The nets whose layers with params are not partitioned, and share no params. -/
structure Unshared (layers : List LayerConf) : Prop where
  plain : PlainNet (layers.map LayerConf.proto)
  params : ∀ conf ∈ layers, hasParams conf.proto.type = true → 2 ≤ conf.param.length
  shareFrom : ∀ conf ∈ layers, ∀ p ∈ conf.param, p.shareFrom = ""
  dim : ∀ conf ∈ layers, conf.proto.partitionDim = -1

namespace Unshared

variable (h : Unshared layers) (laid : Laid n (layers.map LayerConf.proto) g)

include h laid

/-- Without partitions, names tell the nodes apart. -/
theorem layerAt_own {v : Nat} (hv : v ∈ g.nodes) (has : ParamNode g v) : layerAt g v = v := by
  obtain ⟨at_v, name⟩ := layerAt_spec hv
  obtain ⟨conf, mem, i, of⟩ := laid.paramNode hv has
  have memConf := List.mem_map_of_mem (f := LayerConf.proto) mem
  have only {j : Int} (hj : j ∈ layerIds n conf.proto) : j = conf.proto.partitionId := by
    rw [layerIds, if_neg (by simp [h.dim conf mem])] at hj
    exact List.mem_singleton.mp hj
  rcases laid.kinds _ at_v with ⟨layer, mem', j, of'⟩ | inserted
  · have layer_eq := nodeNames_disjoint h.plain mem' memConf of'.name (name ▸ of.name)
    subst layer_eq
    refine laid.once conf.proto memConf i _ at_v v hv ?_ of
    rwa [only of.id, ← only of'.id]
  · obtain ⟨c, mark, hc⟩ := inserted.name
    rw [name] at hc
    exact absurd mark (nodeNames_chars (h.plain.plain _ memConf) of.name c hc)

/-- The configuration that a node's layer finds by its name. -/
theorem confOf_eq {v : Nat} (hv : v ∈ g.nodes) (has : ParamNode g v) :
    ∃ conf ∈ layers, confOf layers (g.node v).proto.name = conf.param ∧ hasParams conf.proto.type = true := by
  obtain ⟨conf, mem, i, of⟩ := laid.paramNode hv has
  have found : (layers.find? (·.proto.name = conf.proto.name)).isSome :=
    List.find?_isSome.mpr ⟨conf, mem, by simp⟩
  obtain ⟨conf', at_name⟩ := Option.isSome_iff_exists.mp found
  have name : conf'.proto.name = conf.proto.name := by simpa using List.find?_some at_name
  have mem' := List.mem_of_find?_eq_some at_name
  have proto := h.plain.eq (List.mem_map_of_mem mem') (List.mem_map_of_mem mem) name
  rw [of.paramNode_iff] at has
  refine ⟨conf', mem', ?_, by rw [proto]; exact has⟩
  rw [confOf, of.proto, at_name]
  rfl

theorem newParam_shareFrom {v k : Nat} (hv : v ∈ g.nodes) (has : ParamNode g v) :
    (newParam layers shape base g v k).shareFrom = "" := by
  obtain ⟨conf, mem, params, -⟩ := h.confOf_eq laid hv has
  change shareName layers (g.node v).proto.name k = ""
  rw [shareName, params]
  cases at_k : conf.param[k]? with
  | none => rfl
  | some p => exact h.shareFrom conf mem p (List.mem_of_getElem? at_k)

/-- A pass of the setup loop returns. -/
theorem setupNode_total (shape : Nat → Nat → List Nat) (base : Nat) {u : Nat} (hu : u ∈ g.nodes) (b : Builder) :
    ∃ b', setupNode layers shape base g b u = .ok b' := by
  have read : ∃ confs, layerParams layers (g.node (layerAt g u)).proto.type (g.node u).proto = .ok confs := by
    rw [layerParams]
    split
    · rename_i has
      have hasU := laid.paramNode_of_name h.plain hu (layerAt_spec hu).1 has (layerAt_spec hu).2.symm
      obtain ⟨conf, mem, params, type⟩ := h.confOf_eq laid hu hasU
      have enough := h.params conf mem type
      rw [← params, confOf] at enough
      split
      · exact ⟨_, rfl⟩
      · rename_i few
        cases here : ((layers.find? (·.proto.name = (g.node u).proto.name)).map LayerConf.param).getD [] with
        | nil => simp [here] at enough
        | cons weight rest =>
          cases rest with
          | nil => simp [here] at enough
          | cons bias rest => exact absurd here (few weight bias rest)
    · exact ⟨[], rfl⟩
  obtain ⟨confs, read⟩ := read
  exact ⟨_, Run.do_ok.mpr ⟨confs, read, rfl⟩⟩

/-- **A net without shared params is made**, and its params own themselves. -/
theorem createNetFromGraph_total (iterate : List String → List String) (shape : Nat → Nat → List Nat) (base : Nat) :
    ∃ net, createNetFromGraph iterate layers shape base g = .ok net ∧
      (∀ id, id ∈ net.ids ↔ ∃ v ∈ g.nodes, ParamNode g v ∧ ∃ k < 2, id = firstId g v + k) ∧
      ∀ v ∈ g.nodes, ParamNode g v → ∀ k < 2, net.params (firstId g v + k) = newParam layers shape base g v k := by
  have own : ∀ v ∈ g.nodes, ParamNode g v → layerAt g v = v := fun v hv has => h.layerAt_own laid hv has
  have start : SetUp layers shape base g [] Builder.empty :=
    ⟨rfl, by simp, by simp [Builder.empty], by simp, fun _ => rfl, List.nodup_nil, by simp [Builder.empty, groupOf]⟩
  have pass (done : List Nat) (u : Nat) (rest : List Nat) (b : Builder) (split : g.nodes = done ++ u :: rest)
      (inv : SetUp layers shape base g done b) :
      ∃ b', setupNode layers shape base g b u = .ok b' ∧ SetUp layers shape base g (done ++ [u]) b' := by
    obtain ⟨b', pass⟩ := h.setupNode_total laid shape base (u := u) (by simp [split]) b
    exact ⟨b', pass, inv.pass h.plain laid own split pass⟩
  obtain ⟨b, setup, setUp⟩ := Run.foldlM_prefix (SetUp layers shape base g) pass start
  have made : builtLayers g b = .ok (layersOf g b) := by
    refine Run.mapM_pure fun v hv => ?_
    by_cases has : ParamNode g v
    · rw [setUp.layer v hv has]
      rfl
    · cases b.layer v with
      | some layer => rfl
      | none => exact if_neg has
  have built : Built n layers shape base g b := ⟨h.plain, laid, own, setUp⟩
  -- no entry of `name2param` has a `share_from`
  have names (l : List String) : l.foldlM (shareEntry (name2param b (layersOf g b))) b.params = .ok b.params := by
    refine Run.foldlM_same fun name _ => ?_
    rw [shareEntry]
    split
    · rfl
    · rename_i p entry
      obtain ⟨v, hv, has, k, hk, rfl, -⟩ := built.name2param_mem entry
      have none : (b.params (firstId g v + k)).shareFrom = "" := by
        rw [setUp.params v hv has k hk]
        exact h.newParam_shareFrom laid hv has
      rw [if_neg (not_not.mpr none)]
  -- and no layer with params is on dimension 0
  have replicas : b.sortedOrigins.foldlM (shareReplicas b) b.params = .ok b.params := by
    refine Run.foldlM_same fun origin _ => ?_
    have plain : ∀ v ∈ b.shareParamLayers origin, b.paramsOf v = [] := by
      intro v hv
      rw [setUp.groups] at hv
      refine built.paramsOf_plain fun has => ?_
      obtain ⟨conf, mem, -, dim, -⟩ := built.group_conf hv has
      rw [h.dim conf mem] at dim
      exact absurd dim (by decide)
    rw [shareReplicas]
    split
    · rfl
    · rename_i owner rest group
      rw [group] at plain
      refine Run.foldlM_same fun v hv => ?_
      rw [plain owner List.mem_cons_self, plain v (List.mem_cons_of_mem _ hv)]
      rfl
  refine ⟨⟨layersOf g b, b.params⟩, ?_, fun id => built.mem_layers, setUp.params⟩
  exact Run.do_ok.mpr ⟨b, setup, Run.do_ok.mpr ⟨_, made, Run.do_ok.mpr ⟨_, names _, Run.do_ok.mpr ⟨_, replicas, rfl⟩⟩⟩⟩

end Unshared

/-! ## Fully connected layers on one data layer -/

/-- A fully connected layer on the data layer. -/
def fcLayer (name : String) : LayerConf where
  proto := { name, type := .kInnerProduct, srclayers := ["data"] }
  param := [{}, {}]

/-- The data layer and the layers `names` on it. -/
def starLayers (names : List String) : List LayerConf :=
  { proto := { name := "data", type := .kShardData } } :: names.map fcLayer

structure StarNames (names : List String) : Prop where
  distinct : ("data" :: names).Nodup
  plain : ∀ name ∈ names, Plain name

namespace StarNames

variable {names : List String} (h : StarNames names)

include h

theorem unshared : Unshared (starLayers names) := by
  have all (P : LayerConf → Prop) (data : P { proto := { name := "data", type := .kShardData } })
      (fc : ∀ name ∈ names, P (fcLayer name)) : ∀ conf ∈ starLayers names, P conf := by
    refine List.forall_mem_cons.mpr ⟨data, fun conf mem => ?_⟩
    obtain ⟨name, hname, rfl⟩ := List.mem_map.mp mem
    exact fc name hname
  refine ⟨⟨?_, fun layer mem => ?_⟩, ?_, ?_, ?_⟩
  · have same : (starLayers names).map (fun conf => conf.proto.name) = "data" :: names := by
      simp [starLayers, fcLayer, Function.comp_def]
    rw [List.map_map]
    exact same ▸ h.distinct
  · obtain ⟨conf, hconf, rfl⟩ := List.mem_map.mp mem
    exact all (fun conf => Plain conf.proto.name) (by decide) h.plain conf hconf
  · exact all _ (by simp [hasParams]) (by simp [fcLayer])
  · exact all _ (by simp) (by simp [fcLayer])
  · exact all _ rfl fun _ _ => rfl

/-- The nodes of the layers, and the edges that the connection loop adds. -/
theorem connect_star (n : Nat) : ∃ m node, createNodes n ((starLayers names).map LayerConf.proto) = .ok m ∧
    m.graph.nodes.Perm (("data" :: names).map node) ∧
    (∀ conf ∈ starLayers names, (m.graph.node (node conf.proto.name)).proto = conf.proto) ∧
    (∀ v, (m.graph.node v).srcnodes = [] ∧ (m.graph.node v).dstnodes = []) ∧
    connect registeredLayers ((starLayers names).map LayerConf.proto) m =
      .ok (m.graph.addEdges (names.map fun name => (node "data", node name))) := by
  have plain := h.unshared.plain
  have dims : ∀ layer ∈ (starLayers names).map LayerConf.proto, layer.partitionDim = -1 := by
    intro layer mem
    obtain ⟨conf, hconf, rfl⟩ := List.mem_map.mp mem
    exact h.unshared.dim conf hconf
  obtain ⟨m, created⟩ := createNodes_ok (n := n) fun layer mem => by rw [dims layer mem]; decide
  have made := createNodes_madeOf created
  have labelled := createNodes_labelled created
  let node (name : String) : Nat := ((m.name2nodes name).getD []).headD 0
  -- every layer has one node, with the layer's own configuration
  have of_layer : ∀ layer ∈ (starLayers names).map LayerConf.proto, m.name2nodes layer.name = some [node layer.name] ∧
      m.name2proto layer.name = some layer ∧ (m.graph.node (node layer.name)).proto = layer ∧
      node layer.name < m.graph.size := by
    intro layer mem
    obtain ⟨us, hus, proto, length⟩ := made.lookups (declared_of_nodup plain.distinct mem)
    rw [if_neg (by simp [dims layer mem])] at length
    obtain ⟨v, rfl⟩ := List.length_eq_one_iff.mp length
    have here : node layer.name = v := by simp [node, hus]
    obtain ⟨layer', declared', label⟩ := labelled.nodes _ _ hus
    rw [declared_of_nodup plain.distinct mem, Option.some.injEq] at declared'
    subst declared'
    rw [layerLabels, if_neg (by simp [dims layer mem])] at label
    rw [here]
    exact ⟨hus, proto, congrArg (fun l => l.2.2.2) (List.singleton_inj.mp label),
      made.below _ _ hus v List.mem_cons_self⟩
  have of_name : ∀ name ∈ "data" :: names, ∃ layer ∈ (starLayers names).map LayerConf.proto, layer.name = name := by
    refine List.forall_mem_cons.mpr ⟨⟨_, List.mem_map_of_mem List.mem_cons_self, rfl⟩, fun name mem => ?_⟩
    exact ⟨_, List.mem_map_of_mem (List.mem_cons_of_mem _ (List.mem_map_of_mem mem)), rfl⟩
  refine ⟨m, node, created, ?_, fun conf mem => (of_layer _ (List.mem_map_of_mem mem)).2.2.1, fun v => ?_, ?_⟩
  · have nodup : (("data" :: names).map node).Nodup := by
      refine h.distinct.map_on fun a ha b hb same => ?_
      obtain ⟨layer, mem, rfl⟩ := of_name a ha
      obtain ⟨layer', mem', rfl⟩ := of_name b hb
      have proto := (of_layer layer mem).2.2.1
      rw [same, (of_layer layer' mem').2.2.1] at proto
      rw [proto]
    have inside : ("data" :: names).map node ⊆ m.graph.nodes := by
      intro v hv
      obtain ⟨name, hname, rfl⟩ := List.mem_map.mp hv
      obtain ⟨layer, mem, rfl⟩ := of_name name hname
      rw [labelled.numbered]
      exact List.mem_range.mpr (of_layer layer mem).2.2.2
    refine ((nodup.subperm inside).perm_of_length_le ?_).symm
    have count := congrArg List.length labelled.labels
    have single (layer : LayerProto) (mem : layer ∈ (starLayers names).map LayerConf.proto) :
        (layerLabels n layer).length = 1 := by
      rw [layerLabels, if_neg (by simp [dims layer mem])]
      rfl
    rw [List.length_map, List.length_flatMap, List.map_congr_left single] at count
    rw [count]
    simp [starLayers, Function.comp_def, Nat.add_comm]
  · have empty := made.empty
    refine ⟨List.eq_nil_iff_forall_not_mem.mpr fun w hw => ?_, List.eq_nil_iff_forall_not_mem.mpr fun w hw => ?_⟩
    · exact empty w v (.inr hw)
    · exact empty v w (.inl hw)
  · obtain ⟨dataNodes, dataProto, -, -⟩ := of_layer { name := "data", type := .kShardData } List.mem_cons_self
    have data (g : NetGraph) : connectLayer registeredLayers m g { name := "data", type := .kShardData } = .ok g :=
      Run.do_ok.mpr ⟨_, lookup_ok.mpr dataNodes, rfl⟩
    have fc (name : String) (mem : name ∈ names) (g : NetGraph) :
        connectLayer registeredLayers m g (fcLayer name).proto = .ok (g.addEdge (node "data") (node name)) := by
      obtain ⟨nodes, -⟩ := of_layer (fcLayer name).proto
        (List.mem_map_of_mem (List.mem_cons_of_mem _ (List.mem_map_of_mem mem)))
      refine Run.do_ok.mpr ⟨_, lookup_ok.mpr nodes, Run.foldlM_cons_ok ?_ rfl⟩
      refine Run.do_ok.mpr ⟨_, lookup_ok.mpr nodes, Run.do_ok.mpr ⟨_, lookup_ok.mpr dataNodes, ?_⟩⟩
      exact Run.do_ok.mpr ⟨_, lookup_ok.mpr dataProto, rfl⟩
    rw [starLayers, List.map_cons, connect, List.map_map]
    refine Run.foldlM_cons_ok (data m.graph) ?_
    rw [List.foldlM_map, Graph.addEdges, List.foldl_map]
    exact Run.foldlM_pure fc m.graph

/-- The connected graph is a star, which the passes leave as it is. -/
theorem createGraph_star {n fuel : Nat} (enough : names.length + 2 ≤ fuel) :
    ∃ g u us, createGraph fuel registeredLayers ((starLayers names).map LayerConf.proto) n = .ok g ∧
      g.nodes = u :: us ∧ us.length = names.length ∧ (u :: us).Nodup ∧ ¬ ParamNode g u ∧ ∀ v ∈ us, ParamNode g v := by
  obtain ⟨m, node, created, perm, proto, empty, connected⟩ := h.connect_star n
  have nodup : (("data" :: names).map node).Nodup := by
    rw [← perm.nodup_iff, (createNodes_labelled created).numbered]
    exact List.nodup_range
  have inj {a b : String} (ha : a ∈ "data" :: names) (hb : b ∈ "data" :: names) (same : node a = node b) : a = b :=
    List.inj_on_of_nodup_map nodup ha hb same
  have other {name : String} (mem : name ∈ names) : node name ≠ node "data" := fun same =>
    (List.nodup_cons.mp h.distinct).1 (inj (List.mem_cons_of_mem _ mem) List.mem_cons_self same ▸ mem)
  set c := m.graph.addEdges (names.map fun name => (node "data", node name)) with c_def
  have label (v : Nat) : (c.node v).proto = (m.graph.node v).proto := proto_of_label (Graph.addEdges_label _)
  have edge : ∀ e ∈ names.map (fun name => (node "data", node name)), e.1 = node "data" ∧ e.2 ≠ node "data" := by
    intro e he
    obtain ⟨name, mem, rfl⟩ := List.mem_map.mp he
    exact ⟨rfl, other mem⟩
  have src (v : Nat) : (c.node v).srcnodes =
      ((names.map fun name => (node "data", node name)).filter (·.2 = v)).map Prod.fst := by
    rw [c_def, Graph.addEdges_node]
    simp only [(empty v).1, List.nil_append]
  have dst (v : Nat) : (c.node v).dstnodes =
      ((names.map fun name => (node "data", node name)).filter (·.1 = v)).map Prod.snd := by
    rw [c_def, Graph.addEdges_node]
    simp only [(empty v).2, List.nil_append]
  have star : c.Star (node "data") (names.map node) := by
    refine ⟨?_, ?_, fun v hv => ⟨?_, ?_⟩, nodup, ?_⟩
    · rw [src, List.filter_eq_nil_iff.mpr fun e he => by simpa using (edge e he).2]
      rfl
    · rw [dst, List.filter_eq_self.mpr fun e he => by simpa using (edge e he).1, List.map_map]
      rfl
    · obtain ⟨name, mem, rfl⟩ := List.mem_map.mp hv
      have only : names.filter (fun a => node a = node name) = [name] := by
        have same : names.filter (fun a => node a = node name) = names.filter (· = name) := by
          refine List.filter_congr fun a ha => ?_
          have iff : node a = node name ↔ a = name :=
            ⟨inj (List.mem_cons_of_mem _ ha) (List.mem_cons_of_mem _ mem), fun same => same ▸ rfl⟩
          simp [iff]
        rw [same, List.filter_eq, (List.nodup_cons.mp h.distinct).2.count, if_pos mem]
        rfl
      rw [src, List.filter_map]
      exact congrArg (fun l => (l.map fun name => (node "data", node name)).map Prod.fst) only
    · obtain ⟨name, mem, rfl⟩ := List.mem_map.mp hv
      rw [dst, List.filter_eq_nil_iff.mpr fun e he => ?_]
      · rfl
      · rw [(edge e he).1]
        simpa using (other mem).symm
    · rw [c_def, Graph.addEdges_nodes]
      exact perm
  have data : (c.node (node "data")).proto.type = .kShardData := by
    rw [label, proto { proto := { name := "data", type := .kShardData } } List.mem_cons_self]
  have fc : ∀ v ∈ names.map node, (c.node v).proto.type = .kInnerProduct := by
    intro v hv
    obtain ⟨name, mem, rfl⟩ := List.mem_map.mp hv
    have own := proto (fcLayer name) (List.mem_cons_of_mem _ (List.mem_map_of_mem mem))
    rw [label]
    exact congrArg LayerProto.type own
  -- the data layer serves many destinations, and the other layers have none
  have split : splitPass registeredLayers (node "data" :: names.map node)
      { c with nodes := node "data" :: names.map node } = .ok { c with nodes := node "data" :: names.map node } := by
    refine Run.foldlM_same fun v hv => if_neg ?_
    rcases List.mem_cons.mp hv with rfl | hv
    · change ¬ (_ ∧ (registeredLayers (c.node (node "data")).proto.type).dstLayerConnection = _)
      rw [data]
      exact fun both => absurd both.2 (by decide)
    · change ¬ (1 < (c.node v).dstnodes.length ∧ _)
      rw [(star.leaf v hv).2]
      exact fun both => absurd both.1 (by simp)
  have length : (names.map node).length + 2 ≤ fuel := by rwa [List.length_map]
  refine ⟨{ c with nodes := node "data" :: names.map node }, node "data", names.map node, ?_, rfl, List.length_map _,
    nodup, ?_, fun v hv => ?_⟩
  · refine Run.do_ok.mpr ⟨m, created, Run.do_ok.mpr ⟨c, connected, Run.do_ok.mpr ⟨_, star.sort length, ?_⟩⟩⟩
    refine Run.do_ok.mpr ⟨_, split, Run.do_ok.mpr ⟨_, bridgePass_eq _ _, star.sorted.sort length⟩⟩
  · change ¬ hasParams (c.node (node "data")).proto.type = true
    rw [data]
    decide
  · change hasParams (c.node v).proto.type = true
    rw [fc v hv]
    rfl

/-- **The net is made**, and its params are numbered through and own themselves. -/
theorem create_star {n fuel : Nat} (enough : names.length + 2 ≤ fuel) (iterate : List String → List String)
    (shape : Nat → Nat → List Nat) (base : Nat) : ∃ net,
      create fuel registeredLayers iterate shape base { layer := starLayers names } .kTrain n = .ok net ∧
      (∀ id, id ∈ net.ids ↔ id < 2 * names.length) ∧
      ∀ id < 2 * names.length, (net.params id).owner = id ∧ ∃ v k, (net.params id).shape = shape v k := by
  have whole : included { layer := starLayers names } .kTrain = starLayers names := by
    have all : ∀ conf ∈ starLayers names, conf.exclude = [] ∧ conf.hasPartitionDim = true := by
      refine List.forall_mem_cons.mpr ⟨⟨rfl, rfl⟩, fun conf mem => ?_⟩
      obtain ⟨name, -, rfl⟩ := List.mem_map.mp mem
      exact ⟨rfl, rfl⟩
    rw [included, List.filter_eq_self.mpr fun conf mem => by simp [(all conf mem).1]]
    exact (List.map_congr_left fun conf mem => if_pos (all conf mem).2).trans (List.map_id _)
  have checked : checkParams (starLayers names) = .ok () := by
    have params : ∀ p ∈ (starLayers names).flatMap (·.param), p = {} := by
      intro p hp
      obtain ⟨conf, mem, hp⟩ := List.mem_flatMap.mp hp
      rcases List.mem_cons.mp mem with rfl | mem
      · cases hp
      · obtain ⟨name, -, rfl⟩ := List.mem_map.mp mem
        simpa [fcLayer] using hp
    refine Run.do_ok.mpr ⟨[], Run.foldlM_same fun p hp => ?_, ?_⟩
    · rw [params p hp]
      rfl
    · have none : ((starLayers names).flatMap (·.param)).filter (·.shareFrom ≠ "") = [] := by
        refine List.filter_eq_nil_iff.mpr fun p hp => ?_
        rw [params p hp]
        simp
      rw [none]
      rfl
  obtain ⟨g, u, us, graph, nodes, length, nodup, plain, params⟩ := h.createGraph_star (n := n) enough
  have laid := createGraph_laid h.unshared.plain graph
  obtain ⟨net, made, ids, all⟩ := h.unshared.createNetFromGraph_total laid iterate shape base
  have paramNodes : g.nodes.filter (ParamNode g) = us := by
    rw [nodes, List.filter_cons_of_neg (by simpa using plain)]
    exact List.filter_eq_self.mpr fun v hv => by simpa using params v hv
  have first (v : Nat) : firstId g v = 2 * us.idxOf v := by rw [firstId, paramNodes]
  -- the param `id` is of the node at `id / 2`
  have at_id {id : Nat} (low : id < 2 * names.length) :
      ∃ v ∈ g.nodes, ParamNode g v ∧ ∃ k < 2, id = firstId g v + k := by
    have bound : id / 2 < us.length := by omega
    refine ⟨us[id / 2], ?_, params _ (List.getElem_mem bound), id % 2, Nat.mod_lt _ (by omega), ?_⟩
    · rw [nodes]
      exact List.mem_cons_of_mem u (List.getElem_mem bound)
    · rw [first, (List.nodup_cons.mp nodup).2.idxOf_getElem]
      omega
  refine ⟨net, ?_, fun id => ⟨fun mem => ?_, fun low => (ids id).mpr (at_id low)⟩, fun id low => ?_⟩
  · rw [create, whole]
    exact Run.do_ok.mpr ⟨(), checked, Run.do_ok.mpr ⟨g, graph, made⟩⟩
  · obtain ⟨v, hv, has, k, hk, rfl⟩ := (ids id).mp mem
    have listed : v ∈ us := paramNodes ▸ List.mem_filter.mpr ⟨hv, by simpa using has⟩
    have bound := List.idxOf_lt_length_of_mem listed
    rw [first]
    omega
  · obtain ⟨v, hv, has, k, hk, rfl⟩ := at_id low
    rw [all v hv has k hk]
    exact ⟨rfl, v, k, rfl⟩

end StarNames

end NeuralNet

end Singa
