import Singa.Neuralnet.CreateGraph

/-!
# What the connection loop builds

A pass of the connection loop adds either direct edges between layer nodes or
hubs: one inserted node with edges from its sources and to its destinations.
`Spans base parts g` says that `g` is the graph `base` of the layer nodes with
exactly these parts added. `connect_spans` gives the parts of the whole loop,
after which nothing about its graph is read off the code again.
-/

namespace Singa.NeuralNet
set_option autoImplicit false

/-- What one call adds: an edge, or a node between `srcs` and `dsts` with the partition id of `owner`. -/
inductive Part where
  | edge (u v : Nat)
  | hub (type : LayerType) (owner : Nat) (srcs dsts : List Nat)

/-- The part leads from `u` to `v`. -/
def Part.Joins : Part → Nat → Nat → Prop
  | .edge a b, u, v => u = a ∧ v = b
  | .hub _ _ srcs dsts, u, v => u ∈ srcs ∧ v ∈ dsts

/-- The part connects nodes below `k` only. -/
def Part.Below (k : Nat) : Part → Prop
  | .edge a b => a < k ∧ b < k
  | .hub _ owner srcs dsts => owner < k ∧ (∀ u ∈ srcs, u < k) ∧ ∀ v ∈ dsts, v < k

/-- The parts that one pass adds. -/
def Wiring.parts (w : Wiring) (srcnodes nodes : List Nat) : List Part :=
  match w with
  | .slice => (srcnodes.take 1).map fun s => .hub .kSlice s [s] nodes
  | .edge => List.zipWith .edge (srcnodes.take 1) (nodes.take 1)
  | .split => (srcnodes.take 1).map fun s => .hub .kSplit s [s] nodes
  | .concate => nodes.map fun d => .hub .kConcate d srcnodes [d]
  | .pairwise => List.zipWith .edge srcnodes nodes
  | .exchange | .none => []

/-- The pairs that these parts lead from and to, for anything that stands for the nodes. -/
def Wiring.pairs {β : Type} (w : Wiring) (srcs dsts : List β) : List (β × β) :=
  match w with
  | .slice | .split => (srcs.take 1).product dsts
  | .edge => (srcs.take 1).zip (dsts.take 1)
  | .concate => srcs.product dsts
  | .pairwise => srcs.zip dsts
  | .exchange | .none => []

theorem Wiring.pairs_map {β γ : Type} (w : Wiring) (f : β → γ) (srcs dsts : List β) :
    w.pairs (srcs.map f) (dsts.map f) = (w.pairs srcs dsts).map (Prod.map f f) := by
  have product (xs ys : List β) : (xs.map f).product (ys.map f) = (xs.product ys).map (Prod.map f f) := by
    simp [List.product, List.flatMap_map, List.map_flatMap, Function.comp_def]
  cases w <;> simp only [pairs, ← List.map_take, product, List.zip_map, List.map_nil]

theorem Wiring.mem_of_pairs {β : Type} {w : Wiring} {srcs dsts : List β} {u v : β}
    (h : (u, v) ∈ w.pairs srcs dsts) : u ∈ srcs ∧ v ∈ dsts := by
  cases w with
  | slice | split =>
    have both := List.pair_mem_product.mp h
    exact ⟨List.mem_of_mem_take both.1, both.2⟩
  | edge =>
    have both := List.of_mem_zip h
    exact ⟨List.mem_of_mem_take both.1, List.mem_of_mem_take both.2⟩
  | concate => exact List.pair_mem_product.mp h
  | pairwise => exact List.of_mem_zip h
  | exchange | none => simp [pairs] at h

theorem Wiring.exists_joins (w : Wiring) (srcnodes nodes : List Nat) (u v : Nat) :
    (∃ p ∈ w.parts srcnodes nodes, p.Joins u v) ↔ (u, v) ∈ w.pairs srcnodes nodes := by
  have zip (xs ys : List Nat) : (∃ p ∈ List.zipWith Part.edge xs ys, p.Joins u v) ↔ (u, v) ∈ xs.zip ys := by
    rw [← List.map_uncurry_zip_eq_zipWith]
    simp [Part.Joins]
  cases w <;> simp only [parts, pairs, zip]
  case slice | split => simp [Part.Joins, List.pair_mem_product, - List.map_take]
  case concate => simp [Part.Joins, List.pair_mem_product, and_comm]
  all_goals simp

/-! ## Graphs that grow -/

/-- `g'` is `g` with the edges `es` and perhaps further nodes. -/
structure Extends (g g' : NetGraph) (es : List (Nat × Nat)) : Prop where
  size : g.size ≤ g'.size
  label : ∀ u < g.size, (g'.node u).label = (g.node u).label
  dst : ∀ u v, v ∈ (g'.node u).dstnodes ↔ v ∈ (g.node u).dstnodes ∨ (u, v) ∈ es
  src : ∀ u v, u ∈ (g'.node v).srcnodes ↔ u ∈ (g.node v).srcnodes ∨ (u, v) ∈ es

/-- Edges end at nodes that were added. -/
def Closed (g : NetGraph) : Prop := ∀ u v, g.Touches u v → u < g.size ∧ v < g.size

variable {g g' g'' base : NetGraph} {es es' : List (Nat × Nat)} {parts : List Part}

theorem extends_addEdges (g : NetGraph) (es : List (Nat × Nat)) : Extends g (g.addEdges es) es where
  size := by rw [Graph.addEdges_size]
  label u _ := Graph.addEdges_label es
  dst _ _ := Graph.mem_dstnodes_addEdges es
  src _ _ := Graph.mem_srcnodes_addEdges es

theorem extends_addEdge (g : NetGraph) (a b : Nat) : Extends g (g.addEdge a b) [(a, b)] :=
  extends_addEdges g [(a, b)]

theorem Extends.trans (first : Extends g g' es) (second : Extends g' g'' es') :
    Extends g g'' (es ++ es') where
  size := first.size.trans second.size
  label u below := (second.label u (below.trans_le first.size)).trans (first.label u below)
  dst u v := by rw [second.dst, first.dst, List.mem_append, or_assoc]
  src u v := by rw [second.src, first.src, List.mem_append, or_assoc]

/-- A node without edges changes no edge. -/
theorem extends_insertNode (closed : Closed g) (proto : LayerProto) :
    Extends g (insertNode g proto).1 [] := by
  have none (v : Nat) : v ∉ (g.node g.size).dstnodes ∧ v ∉ (g.node g.size).srcnodes :=
    ⟨fun h => (closed _ _ (.inl h)).1.false, fun h => (closed _ _ (.inr h)).2.false⟩
  refine ⟨by simp [insertNode], fun u below => ?_, fun u v => ?_, fun u v => ?_⟩
  · rw [insertNode, Graph.addNode_node, if_neg below.ne]
  · rw [insertNode, Graph.addNode_node]
    split
    · rename_i same
      simp [same, (none v).1]
    · simp
  · rw [insertNode, Graph.addNode_node]
    split
    · rename_i same
      simp [same, (none u).2]
    · simp

theorem insertNode_proto (g : NetGraph) (proto : LayerProto) :
    ((insertNode g proto).1.node g.size).proto = proto := by
  simp [insertNode, Graph.addNode_node]

theorem Extends.proto (h : Extends g g' es) {u : Nat} (below : u < g.size) :
    (g'.node u).proto = (g.node u).proto :=
  congrArg (fun label => label.2.2.2) (h.label u below)

theorem Extends.closed (h : Extends g g' es) (closed : Closed g)
    (below : ∀ e ∈ es, e.1 < g'.size ∧ e.2 < g'.size) : Closed g' := by
  intro u v touches
  rcases touches with touches | touches
  · rcases (h.dst u v).mp touches with old | new
    · have bound := closed u v (.inl old)
      exact ⟨bound.1.trans_le h.size, bound.2.trans_le h.size⟩
    · exact below _ new
  · rcases (h.src u v).mp touches with old | new
    · have bound := closed u v (.inr old)
      exact ⟨bound.1.trans_le h.size, bound.2.trans_le h.size⟩
    · exact below _ new

/-! ## Hubs -/

/-- Node `m` stands between `srcs` and `dsts`, and has no other edges. -/
structure Hub (g : NetGraph) (m : Nat) (type : LayerType) (owner : Nat) (srcs dsts : List Nat) : Prop where
  type : (g.node m).proto.type = type
  pid : (g.node m).proto.partitionId = (g.node owner).proto.partitionId
  dst : ∀ v, v ∈ (g.node m).dstnodes ↔ v ∈ dsts
  src : ∀ u, u ∈ (g.node m).srcnodes ↔ u ∈ srcs
  into : ∀ u, m ∈ (g.node u).dstnodes ↔ u ∈ srcs
  outOf : ∀ v, m ∈ (g.node v).srcnodes ↔ v ∈ dsts

theorem Hub.extend {m owner : Nat} {type : LayerType} {srcs dsts : List Nat}
    (h : Hub g m type owner srcs dsts) (ext : Extends g g' es) (below : m < g.size) (owned : owner < g.size)
    (apart : ∀ e ∈ es, e.1 ≠ m ∧ e.2 ≠ m) : Hub g' m type owner srcs dsts where
  type := by rw [ext.proto below, h.type]
  pid := by rw [ext.proto below, ext.proto owned, h.pid]
  dst v := by
    rw [ext.dst, h.dst]
    exact or_iff_left fun new => (apart _ new).1 rfl
  src u := by
    rw [ext.src, h.src]
    exact or_iff_left fun new => (apart _ new).2 rfl
  into u := by
    rw [ext.dst, h.into]
    exact or_iff_left fun new => (apart _ new).2 rfl
  outOf v := by
    rw [ext.src, h.outOf]
    exact or_iff_left fun new => (apart _ new).1 rfl

/-- `g` is `base` with exactly `parts` added. -/
structure Spans (base : NetGraph) (parts : List Part) (g : NetGraph) : Prop where
  grown : base.size ≤ g.size
  label : ∀ u < base.size, (g.node u).label = (base.node u).label
  closed : Closed g
  below : ∀ p ∈ parts, p.Below base.size
  dst : ∀ u v, u < base.size → v < base.size → (v ∈ (g.node u).dstnodes ↔ .edge u v ∈ parts)
  src : ∀ u v, u < base.size → v < base.size → (u ∈ (g.node v).srcnodes ↔ .edge u v ∈ parts)
  hub : ∀ type owner srcs dsts, .hub type owner srcs dsts ∈ parts →
    ∃ m, base.size ≤ m ∧ m < g.size ∧ Hub g m type owner srcs dsts
  part : ∀ m, base.size ≤ m → m < g.size →
    ∃ type owner srcs dsts, .hub type owner srcs dsts ∈ parts ∧ Hub g m type owner srcs dsts

theorem Spans.proto (h : Spans base parts g) {u : Nat} (below : u < base.size) :
    (g.node u).proto = (base.node u).proto :=
  congrArg (fun label => label.2.2.2) (h.label u below)

theorem Spans.start (empty : ∀ u v, ¬ base.Touches u v) : Spans base [] base where
  grown := le_rfl
  label _ _ := rfl
  closed u v touches := absurd touches (empty u v)
  below := by simp
  dst u v _ _ := by simpa using fun h => empty u v (.inl h)
  src u v _ _ := by simpa using fun h => empty u v (.inr h)
  hub := by simp
  part m low high := absurd low (not_le.mpr high)

/-- An edge between layer nodes. -/
theorem Spans.addEdge (h : Spans base parts g) {a b : Nat} (below : a < base.size ∧ b < base.size) :
    Spans base (parts ++ [.edge a b]) (g.addEdge a b) := by
  have ext := extends_addEdge g a b
  have keep {m owner : Nat} {type : LayerType} {srcs dsts : List Nat} (low : base.size ≤ m) (high : m < g.size)
      (part : Part.hub type owner srcs dsts ∈ parts) (hub : Hub g m type owner srcs dsts) :
      Hub (g.addEdge a b) m type owner srcs dsts := by
    have owned : owner < base.size := (h.below _ part).1
    refine hub.extend ext high (owned.trans_le h.grown) fun e he => ?_
    rw [List.mem_singleton.mp he]
    dsimp only
    omega
  refine ⟨h.grown, fun u hu => (ext.label u (hu.trans_le h.grown)).trans (h.label u hu), ?_, ?_, ?_, ?_, ?_, ?_⟩
  · refine ext.closed h.closed fun e he => ?_
    rw [List.mem_singleton.mp he]
    exact ⟨below.1.trans_le h.grown, below.2.trans_le h.grown⟩
  · intro p hp
    rcases List.mem_append.mp hp with old | new
    · exact h.below p old
    · rw [List.mem_singleton.mp new]
      exact below
  · intro u v hu hv
    rw [ext.dst, h.dst u v hu hv]
    simp
  · intro u v hu hv
    rw [ext.src, h.src u v hu hv]
    simp
  · intro type owner srcs dsts hp
    have part : Part.hub type owner srcs dsts ∈ parts := by simpa using hp
    obtain ⟨m, low, high, hub⟩ := h.hub type owner srcs dsts part
    exact ⟨m, low, high, keep low high part hub⟩
  · intro m low high
    obtain ⟨type, owner, srcs, dsts, part, hub⟩ := h.part m low high
    exact ⟨type, owner, srcs, dsts, by simp [part], keep low high part hub⟩

/-- An inserted node, with edges `es` from its sources and to its destinations. -/
theorem Spans.addHub (h : Spans base parts g) (proto : LayerProto) {owner : Nat} {srcs dsts : List Nat}
    (below : (Part.hub proto.type owner srcs dsts).Below base.size)
    (pid : proto.partitionId = (g.node owner).proto.partitionId)
    (edges : ∀ u v, (u, v) ∈ es ↔ (u ∈ srcs ∧ v = g.size) ∨ (u = g.size ∧ v ∈ dsts)) :
    Spans base (parts ++ [.hub proto.type owner srcs dsts]) ((insertNode g proto).1.addEdges es) := by
  obtain ⟨owned, low, high⟩ := below
  have grown := h.grown
  have inserted := extends_insertNode h.closed proto
  have ext : Extends g ((insertNode g proto).1.addEdges es) es := inserted.trans (extends_addEdges _ es)
  have size : ((insertNode g proto).1.addEdges es).size = g.size + 1 := by simp [insertNode]
  generalize hg' : (insertNode g proto).1.addEdges es = g' at ext size
  have none (u v : Nat) (out : g.size ≤ u ∨ g.size ≤ v) : ¬ g.Touches u v := fun touches => by
    have bound := h.closed u v touches
    omega
  have new : Hub g' g.size proto.type owner srcs dsts := by
    have proto' : (g'.node g.size).proto = proto := by
      have label := (extends_addEdges (insertNode g proto).1 es).proto (u := g.size) (by simp [insertNode])
      rw [← hg', label, insertNode_proto]
    refine ⟨by rw [proto'], by rw [proto', pid, ext.proto (owned.trans_le grown)], ?_, ?_, ?_, ?_⟩
    · intro v
      rw [ext.dst, edges]
      have old : v ∉ (g.node g.size).dstnodes := fun hv => none g.size v (.inl le_rfl) (.inl hv)
      have notSrc : g.size ∉ srcs := fun hm => absurd (low _ hm) (by omega)
      simp [old, notSrc]
    · intro u
      rw [ext.src, edges]
      have old : u ∉ (g.node g.size).srcnodes := fun hu => none u g.size (.inr le_rfl) (.inr hu)
      have notDst : g.size ∉ dsts := fun hm => absurd (high _ hm) (by omega)
      simp [old, notDst]
    · intro u
      rw [ext.dst, edges]
      have old : g.size ∉ (g.node u).dstnodes := fun hu => none u g.size (.inr le_rfl) (.inl hu)
      have notDst : g.size ∉ dsts := fun hm => absurd (high _ hm) (by omega)
      simp [old, notDst]
    · intro v
      rw [ext.src, edges]
      have old : g.size ∉ (g.node v).srcnodes := fun hv => none g.size v (.inl le_rfl) (.inr hv)
      have notSrc : g.size ∉ srcs := fun hm => absurd (low _ hm) (by omega)
      simp [old, notSrc]
  have keep {m owner' : Nat} {type : LayerType} {srcs' dsts' : List Nat} (low' : base.size ≤ m)
      (high' : m < g.size) (part : Part.hub type owner' srcs' dsts' ∈ parts)
      (hub : Hub g m type owner' srcs' dsts') : Hub g' m type owner' srcs' dsts' := by
    have owned' : owner' < base.size := (h.below _ part).1
    refine hub.extend ext high' (owned'.trans_le grown) fun e he => ?_
    rcases (edges e.1 e.2).mp he with ⟨hs, hm⟩ | ⟨hm, hd⟩
    · have := low _ hs
      omega
    · have := high _ hd
      omega
  refine ⟨by omega, fun u hu => (ext.label u (hu.trans_le grown)).trans (h.label u hu), ?_, ?_, ?_, ?_, ?_, ?_⟩
  · refine ext.closed h.closed fun e he => ?_
    rcases (edges e.1 e.2).mp he with ⟨hs, hm⟩ | ⟨hm, hd⟩
    · have := low _ hs
      omega
    · have := high _ hd
      omega
  · intro p hp
    rcases List.mem_append.mp hp with old | last
    · exact h.below p old
    · rw [List.mem_singleton.mp last]
      exact ⟨owned, low, high⟩
  · intro u v hu hv
    rw [ext.dst, edges, h.dst u v hu hv]
    have far : u ≠ g.size ∧ v ≠ g.size := by omega
    simp [far.1, far.2]
  · intro u v hu hv
    rw [ext.src, edges, h.src u v hu hv]
    have far : u ≠ g.size ∧ v ≠ g.size := by omega
    simp [far.1, far.2]
  · intro type owner' srcs' dsts' hp
    rcases List.mem_append.mp hp with old | last
    · obtain ⟨m, low', high', hub⟩ := h.hub type owner' srcs' dsts' old
      exact ⟨m, low', by omega, keep low' high' old hub⟩
    · cases List.mem_singleton.mp last
      exact ⟨g.size, grown, by omega, new⟩
  · intro m low' high'
    rcases Nat.lt_or_ge m g.size with inside | last
    · obtain ⟨type, owner', srcs', dsts', part, hub⟩ := h.part m low' inside
      exact ⟨type, owner', srcs', dsts', by simp [part], keep low' inside part hub⟩
    · have same : m = g.size := by omega
      subst same
      exact ⟨proto.type, owner, srcs, dsts, by simp, new⟩

/-! ## One pass of the loop -/

theorem front_ok {v : List Nat} {u : Nat} : front v = .ok u ↔ v.take 1 = [u] := by
  cases v <;> simp [front]

theorem mem_of_take {v : List Nat} {u : Nat} (h : v.take 1 = [u]) : u ∈ v :=
  List.mem_of_mem_take (h ▸ List.mem_singleton_self u)

theorem Spans.addEdges (h : Spans base parts g) {us vs : List Nat} (srcs : ∀ u ∈ us, u < base.size)
    (dsts : ∀ v ∈ vs, v < base.size) :
    Spans base (parts ++ List.zipWith .edge us vs) (g.addEdges (us.zip vs)) := by
  induction us generalizing vs parts g with
  | nil => simpa [Graph.addEdges] using h
  | cons u us ih =>
    cases vs with
    | nil => simpa [Graph.addEdges] using h
    | cons v vs =>
      have first := h.addEdge ⟨srcs u (by simp), dsts v (by simp)⟩
      have low : ∀ x ∈ us, x < base.size := fun x hx => srcs x (by simp [hx])
      have high : ∀ y ∈ vs, y < base.size := fun y hy => dsts y (by simp [hy])
      simpa [Graph.addEdges] using ih first low high

/-- The edges of a node that one source feeds. -/
theorem mem_edges_src {m src : Nat} {dsts : List Nat} (u v : Nat) :
    (u, v) ∈ (src, m) :: dsts.map (m, ·) ↔ (u ∈ [src] ∧ v = m) ∨ (u = m ∧ v ∈ dsts) := by
  simp [eq_comm, and_comm]

/-- The edges of a node that feeds one destination. -/
theorem mem_edges_dst {m dst : Nat} {srcs : List Nat} (u v : Nat) :
    (u, v) ∈ (m, dst) :: srcs.map (·, m) ↔ (u ∈ srcs ∧ v = m) ∨ (u = m ∧ v ∈ [dst]) := by
  simp [eq_comm, or_comm]

theorem sliceNode_spans (h : Spans base parts g) {src : Nat} {dsts : List Nat} {m : Nat}
    (owned : src < base.size) (below : ∀ v ∈ dsts, v < base.size)
    (hg : sliceNode g src dsts true = .ok (g', m)) :
    Spans base (parts ++ [.hub .kSlice src [src] dsts]) g' := by
  obtain ⟨first, -, hg⟩ := Run.do_ok.mp hg
  cases hg
  have bound : (Part.hub .kSlice src [src] dsts).Below base.size := ⟨owned, by simpa using owned, below⟩
  exact h.addHub ⟨_, .kSlice, _, _, _, _, _⟩ bound rfl mem_edges_src

theorem splitNode_spans (h : Spans base parts g) {src : Nat} {dsts : List Nat}
    (owned : src < base.size) (below : ∀ v ∈ dsts, v < base.size) :
    Spans base (parts ++ [.hub .kSplit src [src] dsts]) (splitNode g src dsts).1 := by
  have bound : (Part.hub .kSplit src [src] dsts).Below base.size := ⟨owned, by simpa using owned, below⟩
  exact h.addHub ⟨_, .kSplit, _, _, _, _, _⟩ bound rfl mem_edges_src

theorem concateNodes_spans (h : Spans base parts g) {srcs : List Nat} {dst m : Nat}
    (owned : dst < base.size) (below : ∀ u ∈ srcs, u < base.size)
    (hg : concateNodes g srcs dst = .ok (g', m)) :
    Spans base (parts ++ [.hub .kConcate dst srcs [dst]]) g' := by
  obtain ⟨first, -, hg⟩ := Run.do_ok.mp hg
  cases hg
  have bound : (Part.hub .kConcate dst srcs [dst]).Below base.size := ⟨owned, below, by simpa using owned⟩
  exact h.addHub ⟨_, .kConcate, _, _, _, _, _⟩ bound rfl mem_edges_dst

theorem concateAll_spans (h : Spans base parts g) {srcs dsts : List Nat} (low : ∀ u ∈ srcs, u < base.size)
    (high : ∀ v ∈ dsts, v < base.size) (hg : concateAll srcs dsts g = .ok g') :
    Spans base (parts ++ Wiring.concate.parts srcs dsts) g' := by
  induction dsts generalizing parts g with
  | nil =>
    cases hg
    simpa [Wiring.parts] using h
  | cons d dsts ih =>
    rw [concateAll, List.foldlM_cons] at hg
    obtain ⟨next, first, rest⟩ := Run.do_ok.mp hg
    obtain ⟨⟨next', m⟩, made, same⟩ := Run.do_ok.mp first
    cases same
    have step := concateNodes_spans h (high d (by simp)) low made
    simpa [Wiring.parts] using ih step (fun v hv => high v (by simp [hv])) rest

/-- The exchange case reads the first element of an empty vector at once. -/
theorem sliceAll_ok {srcs : List Nat} {r : NetGraph × List Nat} :
    sliceAll srcs g = .ok r ↔ srcs = [] ∧ r = (g, []) := by
  cases srcs with
  | nil => simp [sliceAll, pure, Except.pure, eq_comm]
  | cons s srcs => simp [sliceAll, sliceNode, front, bind, Except.bind]

/-- **One pass of the connection loop adds the parts of its case.** -/
theorem wire_spans (h : Spans base parts g) {w : Wiring} {srcs dsts : List Nat}
    (low : ∀ u ∈ srcs, u < base.size) (high : ∀ v ∈ dsts, v < base.size)
    (hg : wire w srcs dsts g = .ok g') : Spans base (parts ++ w.parts srcs dsts) g' := by
  cases w with
  | slice =>
    obtain ⟨src, first, hg⟩ := Run.do_ok.mp hg
    obtain ⟨⟨next, m⟩, made, same⟩ := Run.do_ok.mp hg
    cases same
    rw [front_ok] at first
    simpa [Wiring.parts, first] using sliceNode_spans h (low src (mem_of_take first)) high made
  | edge =>
    obtain ⟨src, first, hg⟩ := Run.do_ok.mp hg
    obtain ⟨dst, second, hg⟩ := Run.do_ok.mp hg
    cases hg
    rw [front_ok] at first second
    simpa [Wiring.parts, first, second] using
      h.addEdge ⟨low src (mem_of_take first), high dst (mem_of_take second)⟩
  | split =>
    obtain ⟨src, first, hg⟩ := Run.do_ok.mp hg
    cases hg
    rw [front_ok] at first
    simpa [Wiring.parts, first] using splitNode_spans h (low src (mem_of_take first)) high
  | concate => exact concateAll_spans h low high hg
  | exchange =>
    obtain ⟨r, sliced, hg⟩ := Run.do_ok.mp hg
    obtain ⟨-, rfl⟩ := sliceAll_ok.mp sliced
    cases hg
    simpa [Wiring.parts] using h
  | pairwise =>
    rw [wire] at hg
    split at hg
    · cases hg
      exact h.addEdges low high
    · cases hg
  | none =>
    cases hg
    simpa [Wiring.parts] using h

/-- Enough for a pass to return. -/
def Wiring.Returns (w : Wiring) (srcs dsts : List Nat) : Prop :=
  match w with
  | .slice | .edge => srcs ≠ [] ∧ dsts ≠ []
  | .split | .concate => srcs ≠ []
  | .exchange => srcs = []
  | .pairwise => srcs.length = dsts.length
  | .none => True

theorem wire_returns {w : Wiring} {srcs dsts : List Nat} (h : w.Returns srcs dsts) :
    ∃ g', wire w srcs dsts g = .ok g' := by
  cases w with
  | slice | edge =>
    obtain ⟨s, srcs, rfl⟩ := List.exists_cons_of_ne_nil h.1
    obtain ⟨d, dsts, rfl⟩ := List.exists_cons_of_ne_nil h.2
    exact ⟨_, rfl⟩
  | split =>
    obtain ⟨s, srcs, rfl⟩ := List.exists_cons_of_ne_nil h
    exact ⟨_, rfl⟩
  | concate =>
    obtain ⟨s, srcs, rfl⟩ := List.exists_cons_of_ne_nil h
    exact Run.foldlM_ok (fun d _ g => ⟨_, rfl⟩) g
  | exchange =>
    cases h
    exact ⟨g, rfl⟩
  | pairwise => exact ⟨_, if_pos h⟩
  | none => exact ⟨g, rfl⟩

/-! ## The whole loop -/

/-- The parts for one source layer of `layer`. -/
def srcParts (factory : Factory) (m : Made) (layer : LayerProto) (srcname : String) : List Part :=
  match m.name2nodes layer.name, m.name2nodes srcname, m.name2proto srcname with
  | some nodes, some srcnodes, some src =>
    (wiring src.partitionDim layer.partitionDim (factory layer.type).srcNeuronConnection).parts srcnodes nodes
  | _, _, _ => []

def connectParts (factory : Factory) (net : List LayerProto) (m : Made) : List Part :=
  net.flatMap fun layer => layer.srclayers.flatMap (srcParts factory m layer)

/-- The kinds of parts there are. -/
theorem connectParts_forall (P : Part → Prop) (edge : ∀ u v, P (.edge u v))
    (slice : ∀ src dsts, P (.hub .kSlice src [src] dsts)) (split : ∀ src dsts, P (.hub .kSplit src [src] dsts))
    (concate : ∀ srcs dst, P (.hub .kConcate dst srcs [dst])) (factory : Factory) (net : List LayerProto)
    (m : Made) : ∀ p ∈ connectParts factory net m, P p := by
  have edges (us vs : List Nat) : ∀ p ∈ List.zipWith Part.edge us vs, P p := by
    intro p hp
    rw [← List.map_uncurry_zip_eq_zipWith] at hp
    obtain ⟨e, -, rfl⟩ := List.mem_map.mp hp
    exact edge e.1 e.2
  have each (w : Wiring) (srcs dsts : List Nat) : ∀ p ∈ w.parts srcs dsts, P p := by
    intro p hp
    cases w with
    | slice =>
      obtain ⟨u, -, rfl⟩ := List.mem_map.mp hp
      exact slice u dsts
    | split =>
      obtain ⟨u, -, rfl⟩ := List.mem_map.mp hp
      exact split u dsts
    | concate =>
      obtain ⟨v, -, rfl⟩ := List.mem_map.mp hp
      exact concate srcs v
    | edge | pairwise => exact edges _ _ p hp
    | exchange | none => simp [Wiring.parts] at hp
  intro p hp
  obtain ⟨layer, -, hp⟩ := List.mem_flatMap.mp hp
  obtain ⟨srcname, -, hp⟩ := List.mem_flatMap.mp hp
  rw [srcParts] at hp
  split at hp
  · exact each _ _ _ p hp
  · simp at hp

theorem lookup_ok {β : Type} {f : String → Option β} {name : String} {b : β} :
    lookup f name = .ok b ↔ f name = some b := by
  cases h : f name <;> simp [lookup, h]

/-- What a pass for one source layer reads. -/
theorem connectSrc_ok {factory : Factory} {m : Made} {layer : LayerProto} {srcname : String}
    (h : connectSrc factory m layer g srcname = .ok g') :
    ∃ nodes srcnodes src, m.name2nodes layer.name = some nodes ∧ m.name2nodes srcname = some srcnodes ∧
      m.name2proto srcname = some src ∧
      wire (wiring src.partitionDim layer.partitionDim (factory layer.type).srcNeuronConnection)
        srcnodes nodes g = .ok g' := by
  obtain ⟨nodes, hn, h⟩ := Run.do_ok.mp h
  obtain ⟨srcnodes, hs, h⟩ := Run.do_ok.mp h
  obtain ⟨src, hp, h⟩ := Run.do_ok.mp h
  exact ⟨nodes, srcnodes, src, lookup_ok.mp hn, lookup_ok.mp hs, lookup_ok.mp hp, h⟩

/-- **The connection loop adds exactly the parts of its passes.** -/
theorem connect_spans {factory : Factory} {net : List LayerProto} {m : Made}
    (empty : ∀ u v, ¬ m.graph.Touches u v)
    (below : ∀ name nodes, m.name2nodes name = some nodes → ∀ u ∈ nodes, u < m.graph.size)
    (h : connect factory net m = .ok g) : Spans m.graph (connectParts factory net m) g := by
  have src (layer : LayerProto) (before : List Part) (done : List String) (srcname : String) (s s' : NetGraph)
      (inv : Spans m.graph (before ++ done.flatMap (srcParts factory m layer)) s)
      (pass : connectSrc factory m layer s srcname = .ok s') :
      Spans m.graph (before ++ (done ++ [srcname]).flatMap (srcParts factory m layer)) s' := by
    obtain ⟨nodes, srcnodes, src, hn, hs, hp, wired⟩ := connectSrc_ok pass
    simpa [srcParts, hn, hs, hp] using wire_spans inv (below _ _ hs) (below _ _ hn) wired
  have layers (done : List LayerProto) (layer : LayerProto) (s s' : NetGraph)
      (inv : Spans m.graph (connectParts factory done m) s) (pass : connectLayer factory m s layer = .ok s') :
      Spans m.graph (connectParts factory (done ++ [layer]) m) s' := by
    obtain ⟨_, _, pass⟩ := Run.do_ok.mp pass
    have all := Run.foldlM_inv
      (fun names s => Spans m.graph (connectParts factory done m ++ names.flatMap (srcParts factory m layer)) s)
      (src layer (connectParts factory done m)) (by simpa using inv) pass
    simpa [connectParts] using all
  exact Run.foldlM_inv (fun done s => Spans m.graph (connectParts factory done m) s) layers
    (Spans.start empty) h

end Singa.NeuralNet
