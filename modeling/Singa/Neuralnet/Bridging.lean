import Singa.Neuralnet.Connections

/-!
# Edges between partitions

The bridge pass reads both partition ids from the same node, so it never bridges
anything. An edge between partitions that the connection loop made is still
there in the end, perhaps behind a Split node, and no later pass makes one where
there was none.
-/

namespace Singa.NeuralNet
set_option autoImplicit false

variable {g g' : NetGraph} {n : Nat} {net : List LayerProto} {m : Made} {factory : Factory}

/-- The partition id by which the bridge pass and the workers go. -/
def pid (g : NetGraph) (u : Nat) : Int := (g.node u).proto.partitionId

/-- Every edge between partitions leads from a BridgeSrc to a BridgeDst layer. -/
def Bridged (g : NetGraph) : Prop :=
  ∀ u v, g.Touches u v → pid g u ≠ pid g v →
    (g.node u).proto.type = .kBridgeSrc ∧ (g.node v).proto.type = .kBridgeDst

/-- No declared connection joins nodes of different partitions. -/
def CrossFree (factory : Factory) (net : List LayerProto) (npartitions : Nat) : Prop :=
  ∀ layer ∈ net, ∀ srcname ∈ layer.srclayers, ∀ src dst,
    declared net srcname = some src → declared net layer.name = some dst →
    ∀ pair ∈ (wiring src.partitionDim layer.partitionDim (factory layer.type).srcNeuronConnection).pairs
      (layerIds npartitions src) (layerIds npartitions dst), pair.1 = pair.2

/-- All edges stay inside a partition. -/
def Inside (g : NetGraph) : Prop := ∀ u v, g.Touches u v → pid g u = pid g v

/-- An edge between partitions that does not start at a BridgeSrc layer. -/
def Crosses (g : NetGraph) : Prop :=
  ∃ u v, u < g.size ∧ v < g.size ∧ v ∈ (g.node u).dstnodes ∧ pid g u ≠ pid g v ∧
    (g.node u).proto.type ≠ .kBridgeSrc

theorem Inside.bridged (h : Inside g) : Bridged g :=
  fun u v touches differ => absurd (h u v touches) differ

theorem Crosses.not_bridged (h : Crosses g) : ¬ Bridged g := by
  obtain ⟨u, v, -, -, edge, differ, type⟩ := h
  exact fun bridged => type (bridged u v (.inl edge) differ).1

/-! ## After the connection loop -/

/-- A hub stands in the partition of its only source or of its only destination. -/
def Part.Owned : Part → Prop
  | .edge _ _ => True
  | .hub _ owner srcs dsts => srcs = [owner] ∨ dsts = [owner]

theorem connectParts_owned (factory : Factory) (net : List LayerProto) (m : Made) :
    ∀ p ∈ connectParts factory net m, p.Owned := by
  apply connectParts_forall <;> simp [Part.Owned]

section Spans

variable {base : NetGraph} {parts : List Part}

theorem Spans.pid_base (h : Spans base parts g) {u : Nat} (below : u < base.size) : pid g u = pid base u := by
  rw [pid, h.proto below, pid]

/-- Parts inside partitions give edges inside partitions. -/
theorem Spans.inside (h : Spans base parts g) (owned : ∀ p ∈ parts, p.Owned)
    (joins : ∀ p ∈ parts, ∀ u v, p.Joins u v → pid base u = pid base v) : Inside g := by
  have hub {w owner : Nat} {type : LayerType} {srcs dsts : List Nat}
      (part : Part.hub type owner srcs dsts ∈ parts) (hub : Hub g w type owner srcs dsts) :
      (∀ u ∈ srcs, pid g u = pid g w) ∧ ∀ v ∈ dsts, pid g w = pid g v := by
    obtain ⟨ownerBelow, low, high⟩ := h.below _ part
    have same : pid g w = pid base owner := hub.pid.trans (h.pid_base ownerBelow)
    have pair := joins _ part
    refine ⟨fun u hu => ?_, fun v hv => ?_⟩
    · rw [h.pid_base (low u hu), same]
      rcases owned _ part with rfl | rfl
      · rw [List.mem_singleton.mp hu]
      · exact pair u owner ⟨hu, by simp⟩
    · rw [h.pid_base (high v hv), same]
      rcases owned _ part with rfl | rfl
      · exact pair owner v ⟨by simp, hv⟩
      · rw [List.mem_singleton.mp hv]
  intro u v touches
  obtain ⟨hu, hv⟩ := h.closed u v touches
  rcases Nat.lt_or_ge u base.size with lowU | highU
  · rcases Nat.lt_or_ge v base.size with lowV | highV
    · have part : Part.edge u v ∈ parts := by
        rcases touches with dst | src
        · exact (h.dst u v lowU lowV).mp dst
        · exact (h.src u v lowU lowV).mp src
      rw [h.pid_base lowU, h.pid_base lowV]
      exact joins _ part u v ⟨rfl, rfl⟩
    · obtain ⟨type, owner, srcs, dsts, part, hubV⟩ := h.part v highV hv
      refine (hub part hubV).1 u ?_
      rcases touches with dst | src
      · exact (hubV.into u).mp dst
      · exact (hubV.src u).mp src
  · obtain ⟨type, owner, srcs, dsts, part, hubU⟩ := h.part u highU hu
    refine (hub part hubU).2 v ?_
    rcases touches with dst | src
    · exact (hubU.dst v).mp dst
    · exact (hubU.outOf v).mp src

/-- A part between partitions leaves an edge between partitions. -/
theorem Spans.crosses (h : Spans base parts g) (owned : ∀ p ∈ parts, p.Owned)
    (inserts : ∀ p ∈ parts, p.Inserts) (plain : ∀ u < base.size, (base.node u).proto.type ≠ .kBridgeSrc)
    {p : Part} (part : p ∈ parts) {u v : Nat} (joins : p.Joins u v) (differ : pid base u ≠ pid base v) :
    Crosses g := by
  have grown := h.grown
  cases p with
  | edge a b =>
    obtain ⟨rfl, rfl⟩ := joins
    obtain ⟨hu, hv⟩ := h.below _ part
    refine ⟨u, v, hu.trans_le grown, hv.trans_le grown, (h.dst u v hu hv).mpr part, ?_, ?_⟩
    · rwa [h.pid_base hu, h.pid_base hv]
    · rw [h.proto hu]
      exact plain u hu
  | hub type owner srcs dsts =>
    obtain ⟨ownerBelow, low, high⟩ := h.below _ part
    have hu := low u joins.1
    have hv := high v joins.2
    obtain ⟨w, -, inside, hub⟩ := h.hub type owner srcs dsts part
    have same : pid g w = pid base owner := hub.pid.trans (h.pid_base ownerBelow)
    rcases owned _ part with rfl | rfl
    · obtain rfl := List.mem_singleton.mp joins.1
      refine ⟨w, v, inside, hv.trans_le grown, (hub.dst v).mpr joins.2, ?_, ?_⟩
      · rwa [same, h.pid_base hv]
      · have kind := inserts _ part
        rw [hub.type]
        rintro rfl
        simp [Part.Inserts] at kind
    · obtain rfl := List.mem_singleton.mp joins.2
      refine ⟨u, w, hu.trans_le grown, inside, (hub.into u).mpr joins.1, ?_, ?_⟩
      · rwa [same, h.pid_base hu]
      · rw [h.proto hu]
        exact plain u hu

end Spans

/-- The parts of one declared connection, in terms of the partition ids of its two layers. -/
theorem MadeOf.pairs (made : MadeOf n net m) {layer src dst : LayerProto} {srcname : String}
    (hsrc : declared net srcname = some src) (hdst : declared net layer.name = some dst) (w : Wiring)
    {nodes srcnodes : List Nat} (hn : m.name2nodes layer.name = some nodes)
    (hs : m.name2nodes srcname = some srcnodes) :
    w.pairs (layerIds n src) (layerIds n dst) =
      (w.pairs srcnodes nodes).map (Prod.map (pid m.graph) (pid m.graph)) := by
  obtain ⟨us, hus, ids⟩ := made.nodes srcname src hsrc
  obtain ⟨vs, hvs, ids'⟩ := made.nodes layer.name dst hdst
  cases hs.symm.trans hus
  cases hn.symm.trans hvs
  rw [← Wiring.pairs_map, ← ids, ← ids']
  rfl

theorem connect_inside (made : MadeOf n net m) (h : connect factory net m = .ok g)
    (free : CrossFree factory net n) : Inside g := by
  refine (connect_spans made.empty made.below h).inside (connectParts_owned factory net m) ?_
  intro p hp u v joins
  obtain ⟨layer, mem, hp⟩ := List.mem_flatMap.mp hp
  obtain ⟨srcname, srcMem, hp⟩ := List.mem_flatMap.mp hp
  rw [srcParts] at hp
  split at hp
  · rename_i nodes srcnodes src hn hs hproto
    rw [made.proto] at hproto
    obtain ⟨dst, hdst⟩ := made.known layer.name nodes hn
    have pair := (Wiring.exists_joins _ _ _ u v).mp ⟨p, hp, joins⟩
    have ids := free layer mem srcname srcMem src dst hproto hdst
    rw [made.pairs hproto hdst _ hn hs] at ids
    exact ids _ (List.mem_map_of_mem pair)
  · simp at hp

theorem connect_crosses (made : MadeOf n net m) (h : connect factory net m = .ok g)
    (plain : ∀ layer ∈ net, layer.type ≠ .kBridgeSrc) (crossing : ¬ CrossFree factory net n) : Crosses g := by
  have spans := connect_spans made.empty made.below h
  simp only [CrossFree, not_forall] at crossing
  obtain ⟨layer, mem, srcname, srcMem, src, dst, hsrc, hdst, pair, inPairs, differ⟩ := crossing
  obtain ⟨nodes, hn, -⟩ := made.nodes layer.name dst hdst
  obtain ⟨srcnodes, hs, -⟩ := made.nodes srcname src hsrc
  rw [made.pairs hsrc hdst _ hn hs] at inPairs
  obtain ⟨⟨u, v⟩, inNodes, rfl⟩ := List.mem_map.mp inPairs
  obtain ⟨p, hp, joins⟩ := (Wiring.exists_joins _ _ _ u v).mpr inNodes
  have part : p ∈ connectParts factory net m := by
    refine List.mem_flatMap.mpr ⟨layer, mem, List.mem_flatMap.mpr ⟨srcname, srcMem, ?_⟩⟩
    simpa [srcParts, hn, hs, made.proto, hsrc] using hp
  refine spans.crosses (connectParts_owned factory net m) (connectParts_inserts factory net m) ?_ part joins differ
  intro w hw
  obtain ⟨layer', mem', type⟩ := made.types w hw
  rw [type]
  exact plain layer' mem'

/-! ## The later passes -/

/-- `g'` is `g` with some edges removed, among the destination lists only from that of `node`. -/
structure Shrinks (node : Nat) (g g' : NetGraph) : Prop where
  size : g'.size = g.size
  label : ∀ u, (g'.node u).label = (g.node u).label
  dst : ∀ u, (g'.node u).dstnodes ⊆ (g.node u).dstnodes
  src : ∀ u, (g'.node u).srcnodes ⊆ (g.node u).srcnodes
  other : ∀ u, u ≠ node → (g'.node u).dstnodes = (g.node u).dstnodes

theorem Shrinks.refl (node : Nat) (g : NetGraph) : Shrinks node g g :=
  ⟨rfl, fun _ => rfl, fun _ => List.Subset.refl _, fun _ => List.Subset.refl _, fun _ _ => rfl⟩

theorem Shrinks.trans {node : Nat} {g g' g'' : NetGraph} (first : Shrinks node g g')
    (second : Shrinks node g' g'') : Shrinks node g g'' where
  size := second.size.trans first.size
  label u := (second.label u).trans (first.label u)
  dst u := List.Subset.trans (second.dst u) (first.dst u)
  src u := List.Subset.trans (second.src u) (first.src u)
  other u ne := (second.other u ne).trans (first.other u ne)

theorem removeEdge_shrinks {node dst : Nat} (h : g.removeEdge node dst = .ok g') : Shrinks node g g' := by
  obtain ⟨mid, first, second⟩ := Run.do_ok.mp h
  obtain ⟨dsts, hdsts, first⟩ := Run.do_ok.mp first
  obtain ⟨srcs, hsrcs, second⟩ := Run.do_ok.mp second
  cases first
  cases second
  have fewerDst := Graph.eraseNamed_subset hdsts
  have fewerSrc := Graph.eraseNamed_subset hsrcs
  simp only [Graph.modify_node] at fewerSrc
  refine ⟨rfl, fun u => ?_, fun u => ?_, fun u => ?_, fun u ne => ?_⟩
  all_goals simp only [Graph.modify_node]
  · split_ifs <;> simp_all [Node.label]
  · split_ifs <;> simp_all
  · split_ifs <;> simp_all
  · split_ifs <;> simp_all

theorem Shrinks.pid {node : Nat} (h : Shrinks node g g') (u : Nat) : NeuralNet.pid g' u = NeuralNet.pid g u :=
  congrArg (fun label => label.2.2.2.partitionId) (h.label u)

theorem Shrinks.touches {node u v : Nat} (h : Shrinks node g g') (touches : g'.Touches u v) : g.Touches u v :=
  touches.imp (fun dst => h.dst u dst) (fun src => h.src v src)

theorem Shrinks.type {node : Nat} (h : Shrinks node g g') (u : Nat) :
    (g'.node u).proto.type = (g.node u).proto.type :=
  congrArg (fun label => label.2.2.2.type) (h.label u)

/-- `SplitNode` as an extension of the graph. -/
theorem splitNode_extends (closed : Closed g) (node : Nat) (dsts : List Nat) :
    Extends g (splitNode g node dsts).1 ((node, g.size) :: dsts.map (g.size, ·)) ∧
      (splitNode g node dsts).1.size = g.size + 1 ∧ pid (splitNode g node dsts).1 g.size = pid g node ∧
      ((splitNode g node dsts).1.node g.size).proto.type = .kSplit := by
  rw [splitNode]
  generalize hp : (⟨_, .kSplit, _, _, _, _, _⟩ : LayerProto) = proto
  have inserted := extends_insertNode closed proto
  have edges := extends_addEdges (insertNode g proto).1 ((node, g.size) :: dsts.map (g.size, ·))
  have fresh : g.size < (insertNode g proto).1.size := by simp [insertNode]
  have found := (edges.proto fresh).trans (insertNode_proto g proto)
  refine ⟨inserted.trans edges, by simp [insertNode], ?_, ?_⟩
  · exact (congrArg LayerProto.partitionId found).trans (by rw [← hp, pid])
  · exact (congrArg LayerProto.type found).trans (by rw [← hp])

/-- The Split pass at one node: nothing, or its edges moved behind a Split node. -/
theorem splitDst_cases {node : Nat} (h : splitDst factory g node = .ok g') :
    g' = g ∨ ∃ mid, Shrinks node g mid ∧ (g.node node).dstnodes ≠ [] ∧
      g' = (splitNode mid node (g.node node).dstnodes).1 := by
  rw [splitDst] at h
  split at h
  · rename_i several
    obtain ⟨mid, removed, h⟩ := Run.do_ok.mp h
    cases h
    refine .inr ⟨mid, ?_, List.length_pos_iff.mp (by omega), rfl⟩
    exact Run.foldlM_inv (fun _ s => Shrinks node g s)
      (fun _ _ _ _ inv pass => inv.trans (removeEdge_shrinks pass)) (Shrinks.refl node g) removed
  · cases h
    exact .inl rfl

/-- Where the edges of a node after the Split pass come from. -/
theorem splitDst_spec {node : Nat} (closed : Closed g) (h : splitDst factory g node = .ok g') :
    Closed g' ∧ (Inside g → Inside g') ∧ (Crosses g → Crosses g') := by
  rcases splitDst_cases h with rfl | ⟨mid, shrinks, some, rfl⟩
  · exact ⟨closed, id, id⟩
  · obtain ⟨d, hd⟩ := List.exists_mem_of_ne_nil _ some
    have nodeBelow : node < mid.size := by
      rw [shrinks.size]
      exact (closed node d (.inl hd)).1
    have dstBelow (v : Nat) (hv : v ∈ (g.node node).dstnodes) : v < mid.size := by
      rw [shrinks.size]
      exact (closed node v (.inl hv)).2
    have closedMid : Closed mid := fun u v touches => by
      rw [shrinks.size]
      exact closed u v (shrinks.touches touches)
    obtain ⟨ext, size, pidSplit, type⟩ := splitNode_extends closedMid node (g.node node).dstnodes
    generalize (splitNode mid node (g.node node).dstnodes).1 = g' at ext size pidSplit type
    have pidOld (u : Nat) (hu : u < mid.size) : pid g' u = pid g u := by
      rw [← shrinks.pid u, pid, ext.proto hu, pid]
    have pidNew : pid g' mid.size = pid g node := pidSplit.trans (shrinks.pid node)
    refine ⟨?_, fun inside => ?_, ?_⟩
    · refine ext.closed closedMid fun e he => ?_
      rcases (mem_edges_src e.1 e.2).mp he with ⟨hs, hm⟩ | ⟨hm, hv⟩
      · rw [List.mem_singleton.mp hs]
        omega
      · have := dstBelow e.2 hv
        omega
    · intro u v touches
      have cases : mid.Touches u v ∨ (u, v) ∈ (node, mid.size) :: (g.node node).dstnodes.map (mid.size, ·) := by
        rcases touches with dst | src
        · exact ((ext.dst u v).mp dst).imp_left .inl
        · exact ((ext.src u v).mp src).imp_left .inr
      rcases cases with old | new
      · obtain ⟨hu, hv⟩ := closedMid u v old
        rw [pidOld u hu, pidOld v hv]
        exact inside u v (shrinks.touches old)
      · rcases (mem_edges_src u v).mp new with ⟨hs, rfl⟩ | ⟨rfl, hv⟩
        · obtain rfl := List.mem_singleton.mp hs
          rw [pidNew, pidOld u nodeBelow]
        · rw [pidNew, pidOld v (dstBelow v hv)]
          exact inside node v (.inl hv)
    · rintro ⟨u, v, hu, hv, edge, differ, notBridge⟩
      rw [← shrinks.size] at hu hv
      by_cases here : u = node
      · subst here
        refine ⟨mid.size, v, by omega, by omega, ?_, ?_, by rw [type]; decide⟩
        · exact (ext.dst _ _).mpr (.inr ((mem_edges_src _ _).mpr (.inr ⟨rfl, edge⟩)))
        · rwa [pidNew, pidOld v hv]
      · refine ⟨u, v, by omega, by omega, ?_, ?_, ?_⟩
        · rw [ext.dst, shrinks.other u here]
          exact .inl edge
        · rwa [pidOld u hu, pidOld v hv]
        · rwa [ext.proto hu, shrinks.type u]

theorem splitPass_spec {oldnodes : List Nat} (closed : Closed g) (h : splitPass factory oldnodes g = .ok g') :
    (Inside g → Inside g') ∧ (Crosses g → Crosses g') := by
  have all := Run.foldlM_inv
    (fun _ s => Closed s ∧ (Inside g → Inside s) ∧ (Crosses g → Crosses s))
    (fun _ _ _ _ inv pass => by
      obtain ⟨closed', inside, crosses⟩ := splitDst_spec inv.1 pass
      exact ⟨closed', fun h => inside (inv.2.1 h), fun h => crosses (inv.2.2 h)⟩)
    ⟨closed, id, id⟩ h
  exact all.2

/-- The bridge pass changes nothing: the two ids it compares are the same. -/
theorem bridgePass_eq (oldnodes : List Nat) (g : NetGraph) : bridgePass oldnodes g = .ok g := by
  have inner (node : Nat) (dsts : List Nat) :
      dsts.foldlM (bridgeDst node (g.node node).proto.partitionId) g = .ok g := by
    induction dsts with
    | nil => rfl
    | cons d dsts ih =>
      rw [List.foldlM_cons]
      exact Run.do_ok.mpr ⟨g, if_neg (not_not.mpr rfl), ih⟩
  rw [bridgePass]
  induction oldnodes with
  | nil => rfl
  | cons node oldnodes ih =>
    rw [List.foldlM_cons]
    exact Run.do_ok.mpr ⟨g, inner node _, ih⟩

/-- The graphs that `createGraph` goes through. -/
theorem createGraph_ok {fuel : Nat} (h : createGraph fuel factory net n = .ok g) :
    ∃ m connected sorted split, createNodes n net = .ok m ∧ connect factory net m = .ok connected ∧
      connected.sort fuel = .ok sorted ∧ splitPass factory sorted.nodes sorted = .ok split ∧ split.sort fuel = .ok g := by
  obtain ⟨m, created, h⟩ := Run.do_ok.mp h
  obtain ⟨connected, hconnect, h⟩ := Run.do_ok.mp h
  obtain ⟨sorted, hsort, h⟩ := Run.do_ok.mp h
  obtain ⟨split, hsplit, h⟩ := Run.do_ok.mp h
  obtain ⟨bridged, hbridge, last⟩ := Run.do_ok.mp h
  rw [bridgePass_eq] at hbridge
  cases hbridge
  exact ⟨m, connected, sorted, split, created, hconnect, hsort, hsplit, last⟩

/-- The graph that is returned has an edge between partitions exactly if the connection loop made one. -/
theorem createGraph_spec {fuel : Nat} (h : createGraph fuel factory net n = .ok g) :
    (CrossFree factory net n → Inside g) ∧
      ((∀ layer ∈ net, layer.type ≠ .kBridgeSrc) → ¬ CrossFree factory net n → Crosses g) := by
  obtain ⟨m, connected, sorted, split, created, hconnect, hsort, hsplit, hsort'⟩ := createGraph_ok h
  have made := createNodes_madeOf created
  have closed : Closed connected := (connect_spans made.empty made.below hconnect).closed
  have same {a b : NetGraph} (eq : b.node = a.node ∧ b.size = a.size) :
      (Closed a → Closed b) ∧ (Inside a → Inside b) ∧ (Crosses a → Crosses b) := by
    simp only [Closed, Inside, Crosses, pid, Graph.Touches, eq.1, eq.2]
    exact ⟨id, id, id⟩
  have first := same (Graph.sort_node hsort)
  have last := same (Graph.sort_node hsort')
  have mid := splitPass_spec (first.1 closed) hsplit
  refine ⟨fun free => ?_, fun plain crossing => ?_⟩
  · exact last.2.1 (mid.1 (first.2.1 (connect_inside made hconnect free)))
  · exact last.2.2 (mid.2 (first.2.2 (connect_crosses made hconnect plain crossing)))

/-- **The returned graph is bridged when no declared connection joins different partitions**, and,
unless the net declares BridgeSrc layers itself, only then. -/
theorem createGraph_bridged {fuel : Nat} (h : createGraph fuel factory net n = .ok g) :
    (CrossFree factory net n → Bridged g) ∧
      ((∀ layer ∈ net, layer.type ≠ .kBridgeSrc) → Bridged g → CrossFree factory net n) := by
  obtain ⟨inside, crosses⟩ := createGraph_spec h
  refine ⟨fun free => (inside free).bridged, fun plain bridged => ?_⟩
  by_contra crossing
  exact (crosses plain crossing).not_bridged bridged

/-- Data parallelism throughout: every connection stays inside its partition. -/
def parallelNet : List LayerProto :=
  [{ name := "data", type := .kShardData, partitionDim := 0 },
    { name := "relu", type := .kReLU, srclayers := ["data"], partitionDim := 0 }]

theorem createGraph_bridged_parallel :
    ∃ g, createGraph 20 registeredLayers parallelNet 2 = .ok g ∧ Bridged g := by
  obtain ⟨g, hg⟩ : ∃ g, createGraph 20 registeredLayers parallelNet 2 = .ok g :=
    Run.exists_of_isOk (by decide +kernel)
  refine ⟨g, hg, (createGraph_bridged hg).1 ?_⟩
  have free : CrossFree registeredLayers parallelNet 2 ↔ ∀ a b : Int, a = 0 ∧ b = 0 ∨ a = 1 ∧ b = 1 → a = b := by
    simp [CrossFree, parallelNet, declared, wiring, layerIds, Wiring.pairs, List.range_succ]
  rw [free]
  omega

/-- One data layer that feeds two partitions: `data<` of partition 0 feeds `relu@01` of partition 1. -/
def slicedNet : List LayerProto :=
  [{ name := "data", type := .kShardData },
    { name := "relu", type := .kReLU, srclayers := ["data"], partitionDim := 0 }]

theorem sliced_net_not_bridged :
    ∃ g, createGraph 20 registeredLayers slicedNet 2 = .ok g ∧ ¬ Bridged g := by
  obtain ⟨g, hg⟩ : ∃ g, createGraph 20 registeredLayers slicedNet 2 = .ok g :=
    Run.exists_of_isOk (by decide +kernel)
  refine ⟨g, hg, ((createGraph_spec hg).2 (by decide) fun free => ?_).not_bridged⟩
  have pair := free slicedNet[1] (List.getElem_mem _) "data" (by decide) slicedNet[0] slicedNet[1]
    (by decide) (by decide) (0, 1) (by decide)
  exact absurd pair (by decide)

end Singa.NeuralNet
