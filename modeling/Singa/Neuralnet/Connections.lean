import Singa.Neuralnet.Spans

/-!
# Which declared connections the graph realises

`createNodes` gives every layer its own nodes (`MadeOf`), so a path between two
layers through inserted nodes comes from a pass of the connection loop for these
two layers. A pass fails its connection in two ways: the exchange case indexes
an empty vector, and two layers partitioned on dimension 1 that are not
connected one to one match no case at all.
-/

namespace Singa.NeuralNet
set_option autoImplicit false

/-! ## The nodes of the layers -/

/-- The layer that a name stands for: the last one declared with it. -/
def declared (net : List LayerProto) (name : String) : Option LayerProto :=
  net.reverse.find? fun layer => layer.name = name

/-- The partition ids of the nodes of a layer. -/
def layerIds (npartitions : Nat) (layer : LayerProto) : List Int :=
  if layer.partitionDim = 0 ∨ layer.partitionDim = 1 then (List.range npartitions).map (↑)
  else [layer.partitionId]

theorem declared_append (net : List LayerProto) (layer : LayerProto) :
    declared (net ++ [layer]) = Function.update (declared net) layer.name (some layer) := by
  funext name
  by_cases same : layer.name = name
  · simp [declared, same]
  · rw [Function.update_of_ne (Ne.symm same)]
    simp [declared, same]

theorem declared_mem {net : List LayerProto} {name : String} {layer : LayerProto}
    (h : declared net name = some layer) : layer ∈ net ∧ layer.name = name := by
  have found := List.find?_some h
  exact ⟨List.mem_reverse.mp (List.mem_of_find?_eq_some h), by simpa using found⟩

theorem declared_of_nodup {net : List LayerProto} (nodup : (net.map LayerProto.name).Nodup)
    {layer : LayerProto} (mem : layer ∈ net) : declared net layer.name = some layer := by
  have found : (declared net layer.name).isSome :=
    List.find?_isSome.mpr ⟨layer, List.mem_reverse.mpr mem, by simp⟩
  obtain ⟨other, hother⟩ := Option.isSome_iff_exists.mp found
  obtain ⟨mem', same⟩ := declared_mem hother
  rw [hother, List.inj_on_of_nodup_map nodup mem' mem same]

variable {g : NetGraph} {n : Nat} {net : List LayerProto} {m : Made}

theorem addNodes_size (g : NetGraph) (nodes : List (Node LayerProto)) :
    (addNodes g nodes).1.size = g.size + nodes.length := by
  induction nodes generalizing g with
  | nil => rfl
  | cons node nodes ih =>
    rw [addNodes]
    simp only [ih, Graph.addNode_size, List.length_cons]
    omega

theorem addNodes_snd (g : NetGraph) (nodes : List (Node LayerProto)) :
    (addNodes g nodes).2 = List.range' g.size nodes.length := by
  induction nodes generalizing g with
  | nil => rfl
  | cons node nodes ih =>
    rw [addNodes]
    simp only [ih, Graph.addNode_size, Graph.addNode_snd, List.length_cons, List.range'_succ]

theorem addNodes_old (g : NetGraph) (nodes : List (Node LayerProto)) {u : Nat} (below : u < g.size) :
    (addNodes g nodes).1.node u = g.node u := by
  induction nodes generalizing g with
  | nil => rfl
  | cons node nodes ih =>
    rw [addNodes]
    have next := ih (g.addNode node).1 (by rw [Graph.addNode_size]; omega)
    rw [Graph.addNode_node, if_neg below.ne] at next
    exact next

theorem addNodes_new (g : NetGraph) (nodes : List (Node LayerProto)) :
    (addNodes g nodes).2.map (addNodes g nodes).1.node = nodes := by
  induction nodes generalizing g with
  | nil => rfl
  | cons node nodes ih =>
    rw [addNodes]
    have first := addNodes_old (g.addNode node).1 nodes (u := g.size) (by rw [Graph.addNode_size]; omega)
    rw [Graph.addNode_node, if_pos rfl] at first
    rw [List.map_cons]
    exact congrArg₂ List.cons first (ih (g.addNode node).1)

theorem addNodes_out (g : NetGraph) (nodes : List (Node LayerProto)) {u : Nat}
    (out : g.size + nodes.length ≤ u) : (addNodes g nodes).1.node u = g.node u := by
  induction nodes generalizing g with
  | nil => rfl
  | cons node nodes ih =>
    rw [List.length_cons] at out
    rw [addNodes]
    have next := ih (g.addNode node).1 (by rw [Graph.addNode_size]; omega)
    rw [Graph.addNode_node, if_neg (by omega)] at next
    exact next

/-- What `layerNodes` makes: nodes without edges that carry the layer's type and ids. -/
theorem layerNodes_ok {layer : LayerProto} {nodes : List (Node LayerProto)}
    (h : layerNodes n layer = .ok nodes) :
    nodes.map (·.proto.partitionId) = layerIds n layer ∧
      ∀ node ∈ nodes, node.srcnodes = [] ∧ node.dstnodes = [] ∧ node.proto.type = layer.type := by
  rw [layerNodes] at h
  split at h
  · rename_i dim
    cases h
    refine ⟨?_, ?_⟩
    · simp [layerIds, dim, partitionNode, Function.comp_def]
    · simp [partitionNode]
  · rename_i dim
    split at h
    · cases h
      refine ⟨?_, ?_⟩
      · simp [layerIds, dim]
      · simp
    · cases h

/-- `createNodes` after the layers of `net`. -/
structure MadeOf (n : Nat) (net : List LayerProto) (m : Made) : Prop where
  proto : m.name2proto = declared net
  nodes : ∀ name layer, declared net name = some layer → ∃ us, m.name2nodes name = some us ∧
    us.map (fun u => (m.graph.node u).proto.partitionId) = layerIds n layer
  known : ∀ name us, m.name2nodes name = some us → ∃ layer, declared net name = some layer
  below : ∀ name us, m.name2nodes name = some us → ∀ u ∈ us, u < m.graph.size
  apart : ∀ a b us vs, a ≠ b → m.name2nodes a = some us → m.name2nodes b = some vs → us.Disjoint vs
  empty : ∀ u v, ¬ m.graph.Touches u v
  types : ∀ u < m.graph.size, ∃ layer ∈ net, (m.graph.node u).proto.type = layer.type

theorem MadeOf.start : MadeOf n [] Made.empty where
  proto := rfl
  nodes name layer h := by simp [declared] at h
  known name us h := by simp [Made.empty] at h
  below name us h := by simp [Made.empty] at h
  apart a b us vs _ h := by simp [Made.empty] at h
  empty u v h := by simp [Made.empty, Graph.empty, Graph.Touches] at h
  types u h := by simp [Made.empty, Graph.empty] at h

/-- What a pass of the first loop does to the maps. -/
theorem Made.add_ok {m' : Made} {layer : LayerProto} (pass : m.add n layer = .ok m') :
    ∃ made us, layerNodes n layer = .ok made ∧ addNodes m.graph made = (m'.graph, us) ∧
      m'.name2nodes layer.name = some us ∧
      (∀ name, name ≠ layer.name → m'.name2nodes name = m.name2nodes name) ∧
      m'.name2proto = Function.update m.name2proto layer.name (some layer) := by
  obtain ⟨made, hmade, pass⟩ := Run.do_ok.mp pass
  cases pass
  exact ⟨made, _, hmade, rfl, Function.update_self .., fun _ ne => Function.update_of_ne ne .., rfl⟩

theorem MadeOf.add {m' : Made} {layer : LayerProto} (h : MadeOf n net m)
    (pass : m.add n layer = .ok m') : MadeOf n (net ++ [layer]) m' := by
  obtain ⟨made, us, hmade, added, here, elsewhere, protos⟩ := Made.add_ok pass
  obtain ⟨ids, plain⟩ := layerNodes_ok hmade
  have size := addNodes_size m.graph made
  have numbers := addNodes_snd m.graph made
  have old := fun u (hu : u < m.graph.size) => addNodes_old m.graph made hu
  have new := addNodes_new m.graph made
  have out := fun u (hu : m.graph.size + made.length ≤ u) => addNodes_out m.graph made hu
  simp only [added] at size numbers old new out
  have fresh : ∀ u ∈ us, m.graph.size ≤ u ∧ u < m'.graph.size := fun u hu => by
    rw [numbers, List.mem_range'_1] at hu
    omega
  have made_of (u : Nat) (low : m.graph.size ≤ u) (high : u < m'.graph.size) : m'.graph.node u ∈ made := by
    rw [← new]
    refine List.mem_map_of_mem ?_
    rw [numbers, List.mem_range'_1]
    omega
  refine ⟨?_, ?_, ?_, ?_, ?_, ?_, ?_⟩
  · rw [protos, declared_append, h.proto]
  · intro name layer' hl
    rw [declared_append] at hl
    by_cases same : name = layer.name
    · subst same
      rw [Function.update_self] at hl
      cases hl
      refine ⟨us, here, ?_⟩
      rw [← ids, ← new, List.map_map]
      rfl
    · rw [Function.update_of_ne same] at hl
      obtain ⟨vs, hvs, hids⟩ := h.nodes name layer' hl
      refine ⟨vs, by rw [elsewhere name same, hvs], ?_⟩
      rw [← hids]
      exact List.map_congr_left fun u hu => by rw [old u (h.below name vs hvs u hu)]
  · intro name vs hvs
    rw [declared_append]
    by_cases same : name = layer.name
    · exact ⟨layer, by rw [same, Function.update_self]⟩
    · rw [elsewhere name same] at hvs
      rw [Function.update_of_ne same]
      exact h.known name vs hvs
  · intro name vs hvs u hu
    by_cases same : name = layer.name
    · rw [same, here] at hvs
      cases hvs
      exact (fresh u hu).2
    · rw [elsewhere name same] at hvs
      have := h.below name vs hvs u hu
      omega
  · have apart (a : String) (vs : List Nat) (hvs : m.name2nodes a = some vs) : us.Disjoint vs := by
      intro u hu hv
      exact absurd (h.below a vs hvs u hv) (not_lt.mpr (fresh u hu).1)
    intro a b vs ws ne hvs hws
    by_cases sameA : a = layer.name
    · rw [sameA, here] at hvs
      rw [elsewhere b (sameA ▸ ne.symm)] at hws
      cases hvs
      exact apart b ws hws
    · rw [elsewhere a sameA] at hvs
      by_cases sameB : b = layer.name
      · rw [sameB, here] at hws
        cases hws
        exact (apart a vs hvs).symm
      · rw [elsewhere b sameB] at hws
        exact h.apart a b vs ws ne hvs hws
  · have alone (u : Nat) : (m'.graph.node u).dstnodes = [] ∧ (m'.graph.node u).srcnodes = [] := by
      have before : (m.graph.node u).dstnodes = [] ∧ (m.graph.node u).srcnodes = [] :=
        ⟨List.eq_nil_iff_forall_not_mem.mpr fun v hv => h.empty u v (.inl hv),
          List.eq_nil_iff_forall_not_mem.mpr fun v hv => h.empty v u (.inr hv)⟩
      rcases Nat.lt_or_ge u m.graph.size with low | low
      · rw [old u low]
        exact before
      · rcases Nat.lt_or_ge u m'.graph.size with high | high
        · have node := plain _ (made_of u low high)
          exact ⟨node.2.1, node.1⟩
        · rw [out u (by omega)]
          exact before
    intro u v touches
    rcases touches with touches | touches
    · simp [(alone u).1] at touches
    · simp [(alone v).2] at touches
  · intro u hu
    rcases Nat.lt_or_ge u m.graph.size with low | low
    · obtain ⟨layer', mem, type⟩ := h.types u low
      exact ⟨layer', by simp [mem], by rw [old u low, type]⟩
    · exact ⟨layer, by simp, (plain _ (made_of u low hu)).2.2⟩

theorem createNodes_madeOf (h : createNodes n net = .ok m) : MadeOf n net m :=
  Run.foldlM_inv (MadeOf n) (fun _ _ _ _ inv pass => inv.add pass) MadeOf.start h

/-- The first loop returns when every partition dimension is one of -1, 0 and 1. -/
theorem createNodes_ok (dims : ∀ layer ∈ net, layer.partitionDim ∈ [-1, 0, 1]) :
    ∃ m, createNodes n net = .ok m := by
  refine Run.foldlM_ok (fun layer mem m => ?_) Made.empty
  have dim := dims layer mem
  simp only [List.mem_cons, List.not_mem_nil, or_false] at dim
  obtain ⟨made, hmade⟩ : ∃ made, layerNodes n layer = .ok made := by
    rw [layerNodes]
    rcases dim with dim | dim | dim <;> simp [dim]
  exact ⟨_, Run.do_ok.mpr ⟨made, hmade, rfl⟩⟩

/-! ## Paths through inserted nodes -/

/-- A Slice, Concate or Split node that the connection loop added to the `k` layer nodes. -/
def Inserted (k : Nat) (g : NetGraph) (w : Nat) : Prop :=
  k ≤ w ∧ (g.node w).proto.type ∈ [.kSlice, .kConcate, .kSplit]

/-- A path from `u` to `v` whose interior nodes are all inserted ones. -/
inductive Via (k : Nat) (g : NetGraph) : Nat → Nat → Prop
  | edge {u v : Nat} : g.Edge u v → Via k g u v
  | through {u w v : Nat} : g.Edge u w → Inserted k g w → Via k g w v → Via k g u v

/-- The node of a hub is one of the three inserted kinds. -/
def Part.Inserts : Part → Prop
  | .edge _ _ => True
  | .hub type _ _ _ => type ∈ [.kSlice, .kConcate, .kSplit]

theorem connectParts_inserts (factory : Factory) (net : List LayerProto) (m : Made) :
    ∀ p ∈ connectParts factory net m, p.Inserts := by
  apply connectParts_forall <;> simp [Part.Inserts]

/-- **Between layer nodes, a path through inserted nodes is a part.** -/
theorem Spans.via_iff {base : NetGraph} {parts : List Part} (h : Spans base parts g)
    (inserts : ∀ p ∈ parts, p.Inserts) {u v : Nat} (hu : u < base.size) (hv : v < base.size) :
    Via base.size g u v ↔ ∃ p ∈ parts, p.Joins u v := by
  constructor
  · intro via
    cases via with
    | edge edge => exact ⟨.edge u v, (h.dst u v hu hv).mp edge.1, rfl, rfl⟩
    | @through _ w _ into inserted rest =>
      have high := (h.closed u w (.inl into.1)).2
      obtain ⟨type, owner, srcs, dsts, part, hub⟩ := h.part w inserted.1 high
      have low : ∀ x ∈ dsts, x < base.size := (h.below _ part).2.2
      cases rest with
      | edge out => exact ⟨_, part, (hub.into u).mp into.1, (hub.dst v).mp out.1⟩
      | @through _ x _ out next _ =>
        exact absurd (low x ((hub.dst x).mp out.1)) (not_lt.mpr next.1)
  · rintro ⟨p, part, joins⟩
    cases p with
    | edge a b =>
      obtain ⟨rfl, rfl⟩ := joins
      exact .edge ⟨(h.dst u v hu hv).mpr part, (h.src u v hu hv).mpr part⟩
    | hub type owner srcs dsts =>
      obtain ⟨w, low, -, hub⟩ := h.hub type owner srcs dsts part
      have inserted : Inserted base.size g w := ⟨low, hub.type ▸ inserts _ part⟩
      exact .through ⟨(hub.into u).mpr joins.1, (hub.src u).mpr joins.1⟩ inserted
        (.edge ⟨(hub.dst v).mpr joins.2, (hub.outOf v).mpr joins.2⟩)

/-! ## Realised connections -/

/-- The claim on one declared connection after the connection loop. -/
def Realised (factory : Factory) (m : Made) (g : NetGraph) (layer : LayerProto) (srcname : String) : Prop :=
  ∃ nodes srcnodes, m.name2nodes layer.name = some nodes ∧ m.name2nodes srcname = some srcnodes ∧
    ∀ v ∈ nodes, (∃ u ∈ srcnodes, Via m.graph.size g u v) ∧
      (layer.partitionDim = -1 ∨
          (layer.partitionDim = 1 ∧ (factory layer.type).srcNeuronConnection = .kOneToAll) →
        ∀ u ∈ srcnodes, Via m.graph.size g u v)

/-- Both loops return, so no vector was indexed out of range, and every declared connection is realised. -/
def Connects (factory : Factory) (net : List LayerProto) (npartitions : Nat) : Prop :=
  ∃ m g, createNodes npartitions net = .ok m ∧ connect factory net m = .ok g ∧
    ∀ layer ∈ net, ∀ srcname ∈ layer.srclayers, Realised factory m g layer srcname

/-- A net that the loops can be asked to connect. -/
structure Connectable (net : List LayerProto) (npartitions : Nat) : Prop where
  names : (net.map LayerProto.name).Nodup
  dims : ∀ layer ∈ net, layer.partitionDim ∈ [-1, 0, 1]
  sources : ∀ layer ∈ net, ∀ srcname ∈ layer.srclayers, ∃ src ∈ net, src.name = srcname
  some : 1 ≤ npartitions

/-- The combinations that no case serves: the first two reach the exchange case, the last none. -/
def Unserved (srcPdim pdim : Int) (connection : ConnectionType) : Prop :=
  (srcPdim = 1 ∧ pdim = 0) ∨ (srcPdim = 0 ∧ pdim = 1 ∧ connection ≠ .kOneToAll) ∨
    (srcPdim = 1 ∧ pdim = 1 ∧ connection ≠ .kOneToOne)

instance (srcPdim pdim : Int) (connection : ConnectionType) : Decidable (Unserved srcPdim pdim connection) :=
  inferInstanceAs (Decidable (_ ∨ _))

theorem layerIds_length (layer : LayerProto) :
    (layerIds n layer).length = if layer.partitionDim = 0 ∨ layer.partitionDim = 1 then n else 1 := by
  rw [layerIds]
  split <;> simp

/-- The cases that serve a combination. -/
theorem wiring_served {srcPdim pdim : Int} {connection : ConnectionType}
    (srcDim : srcPdim ∈ [-1, 0, 1]) (dim : pdim ∈ [-1, 0, 1]) (served : ¬ Unserved srcPdim pdim connection) :
    (srcPdim = -1 ∧ (wiring srcPdim pdim connection = .slice ∨ wiring srcPdim pdim connection = .split)) ∨
      (srcPdim = -1 ∧ pdim = -1 ∧ wiring srcPdim pdim connection = .edge) ∨
      wiring srcPdim pdim connection = .concate ∨
      (srcPdim = pdim ∧ pdim ≠ -1 ∧ ¬ (pdim = 1 ∧ connection = .kOneToAll) ∧
        wiring srcPdim pdim connection = .pairwise) := by
  simp only [List.mem_cons, List.not_mem_nil, or_false] at srcDim dim
  rcases srcDim with rfl | rfl | rfl <;> rcases dim with rfl | rfl | rfl <;> cases connection <;>
    simp [wiring, Unserved] at served ⊢

/-- A combination that is served: the pass returns and its pairs cover the connection. -/
theorem wiring_serves {srcPdim pdim : Int} {connection : ConnectionType} {srcs dsts : List Nat}
    (srcDim : srcPdim ∈ [-1, 0, 1]) (dim : pdim ∈ [-1, 0, 1]) (served : ¬ Unserved srcPdim pdim connection)
    (srcCount : srcs.length = if srcPdim = 0 ∨ srcPdim = 1 then n else 1)
    (count : dsts.length = if pdim = 0 ∨ pdim = 1 then n else 1) (pos : 1 ≤ n) :
    (wiring srcPdim pdim connection).Returns srcs dsts ∧
      ∀ v ∈ dsts, (∃ u ∈ srcs, (u, v) ∈ (wiring srcPdim pdim connection).pairs srcs dsts) ∧
        (pdim = -1 ∨ (pdim = 1 ∧ connection = .kOneToAll) →
          ∀ u ∈ srcs, (u, v) ∈ (wiring srcPdim pdim connection).pairs srcs dsts) := by
  have nonempty {us : List Nat} {d : Int} (h : us.length = if d = 0 ∨ d = 1 then n else 1) : us ≠ [] := by
    rintro rfl
    split at h <;> simp at h
    omega
  rcases wiring_served srcDim dim served with ⟨rfl, slice | split⟩ | ⟨rfl, rfl, edge⟩ | concate |
    ⟨rfl, parted, notAll, pairwise⟩
  · obtain ⟨u, rfl⟩ := List.length_eq_one_iff.mp (srcCount.trans (if_neg (by decide)))
    rw [slice]
    exact ⟨⟨by simp, nonempty count⟩, fun v hv => by simp [Wiring.pairs, List.pair_mem_product, hv]⟩
  · obtain ⟨u, rfl⟩ := List.length_eq_one_iff.mp (srcCount.trans (if_neg (by decide)))
    rw [split]
    exact ⟨by simp [Wiring.Returns], fun v hv => by simp [Wiring.pairs, List.pair_mem_product, hv]⟩
  · obtain ⟨u, rfl⟩ := List.length_eq_one_iff.mp (srcCount.trans (if_neg (by decide)))
    obtain ⟨v, rfl⟩ := List.length_eq_one_iff.mp (count.trans (if_neg (by decide)))
    rw [edge]
    simp [Wiring.Returns, Wiring.pairs]
  · rw [concate]
    refine ⟨nonempty srcCount, fun v hv => ⟨?_, fun _ u hu => List.pair_mem_product.mpr ⟨hu, hv⟩⟩⟩
    obtain ⟨u, us, rfl⟩ := List.exists_cons_of_ne_nil (nonempty srcCount)
    exact ⟨u, by simp, List.pair_mem_product.mpr ⟨by simp, hv⟩⟩
  · rw [pairwise]
    have same : srcs.length = dsts.length := srcCount.trans count.symm
    refine ⟨same, fun v hv => ⟨?_, fun every => absurd every (by tauto)⟩⟩
    obtain ⟨i, hi, rfl⟩ := List.getElem_of_mem hv
    refine ⟨srcs[i], List.getElem_mem _, ?_⟩
    rw [Wiring.pairs, ← List.getElem_zip (h := by simpa [same] using hi)]
    exact List.getElem_mem _

/-- What is read when one declared connection is made. -/
theorem MadeOf.lookups (made : MadeOf n net m) {name : String} {layer : LayerProto}
    (h : declared net name = some layer) :
    ∃ us, m.name2nodes name = some us ∧ m.name2proto name = some layer ∧
      us.length = if layer.partitionDim = 0 ∨ layer.partitionDim = 1 then n else 1 := by
  obtain ⟨us, hus, ids⟩ := made.nodes name layer h
  refine ⟨us, hus, by rw [made.proto, h], ?_⟩
  rw [← layerIds_length, ← ids, List.length_map]

/-- A part between nodes of two layers was made for these two layers. -/
theorem MadeOf.joins_iff (made : MadeOf n net m) (names : (net.map LayerProto.name).Nodup) {factory : Factory}
    {layer src : LayerProto} {nodes srcnodes : List Nat} (mem : layer ∈ net) (srcname : src.name ∈ layer.srclayers)
    (srcMem : src ∈ net) (hn : m.name2nodes layer.name = some nodes)
    (hs : m.name2nodes src.name = some srcnodes) {u v : Nat} (hu : u ∈ srcnodes) (hv : v ∈ nodes) :
    (∃ p ∈ connectParts factory net m, p.Joins u v) ↔
      (u, v) ∈ (wiring src.partitionDim layer.partitionDim
        (factory layer.type).srcNeuronConnection).pairs srcnodes nodes := by
  have proto : m.name2proto src.name = some src := by rw [made.proto, declared_of_nodup names srcMem]
  have owner {a b : String} {us vs : List Nat} {x : Nat} (ha : m.name2nodes a = some us)
      (hb : m.name2nodes b = some vs) (hx : x ∈ us) (hx' : x ∈ vs) : a = b := by
    by_contra ne
    exact made.apart a b us vs ne ha hb hx hx'
  rw [← Wiring.exists_joins]
  constructor
  · rintro ⟨p, hp, joins⟩
    obtain ⟨layer', mem', hp⟩ := List.mem_flatMap.mp hp
    obtain ⟨srcname', srcname_mem, hp⟩ := List.mem_flatMap.mp hp
    rw [srcParts] at hp
    split at hp
    · rename_i nodes' srcnodes' src' hn' hs' hp'
      have pair := (Wiring.exists_joins _ _ _ u v).mp ⟨p, hp, joins⟩
      have inside := Wiring.mem_of_pairs pair
      obtain rfl := List.inj_on_of_nodup_map names mem' mem (owner hn' hn inside.2 hv)
      obtain rfl : srcname' = src.name := owner hs' hs inside.1 hu
      rw [hn] at hn'
      rw [hs] at hs'
      rw [proto] at hp'
      cases hn'
      cases hs'
      cases hp'
      exact ⟨p, hp, joins⟩
    · simp at hp
  · rintro ⟨p, hp, joins⟩
    refine ⟨p, ?_, joins⟩
    refine List.mem_flatMap.mpr ⟨layer, mem, List.mem_flatMap.mpr ⟨src.name, srcname, ?_⟩⟩
    simpa [srcParts, hn, hs, proto] using hp

/-- A served net: the loops return and every connection is there. -/
theorem connects_of_served {factory : Factory} (h : Connectable net n)
    (served : ∀ layer ∈ net, ∀ src ∈ net, src.name ∈ layer.srclayers →
      ¬ Unserved src.partitionDim layer.partitionDim (factory layer.type).srcNeuronConnection) :
    Connects factory net n := by
  obtain ⟨m, created⟩ := createNodes_ok (n := n) h.dims
  have made := createNodes_madeOf created
  have each {layer src : LayerProto} (mem : layer ∈ net) (srcMem : src ∈ net) (srcname : src.name ∈ layer.srclayers) :
      ∃ nodes srcnodes, m.name2nodes layer.name = some nodes ∧ m.name2nodes src.name = some srcnodes ∧
        m.name2proto src.name = some src ∧ _ :=
    have ⟨nodes, hn, _, count⟩ := made.lookups (declared_of_nodup h.names mem)
    have ⟨srcnodes, hs, hp, srcCount⟩ := made.lookups (declared_of_nodup h.names srcMem)
    ⟨nodes, srcnodes, hn, hs, hp, wiring_serves (h.dims src srcMem) (h.dims layer mem)
      (served layer mem src srcMem srcname) srcCount count h.some⟩
  obtain ⟨g, connected⟩ : ∃ g, connect factory net m = .ok g := by
    refine Run.foldlM_ok (fun layer mem g => ?_) m.graph
    obtain ⟨nodes, hn, -⟩ := made.lookups (declared_of_nodup h.names mem)
    obtain ⟨g', hg'⟩ : ∃ g', layer.srclayers.foldlM (connectSrc factory m layer) g = .ok g' := by
      refine Run.foldlM_ok (fun srcname hsrc g => ?_) g
      obtain ⟨src, srcMem, rfl⟩ := h.sources layer mem srcname hsrc
      obtain ⟨nodes, srcnodes, hn, hs, hp, returns, -⟩ := each mem srcMem hsrc
      obtain ⟨g', hg'⟩ := wire_returns returns
      exact ⟨g', Run.do_ok.mpr ⟨nodes, lookup_ok.mpr hn, Run.do_ok.mpr ⟨srcnodes, lookup_ok.mpr hs,
        Run.do_ok.mpr ⟨src, lookup_ok.mpr hp, hg'⟩⟩⟩⟩
    exact ⟨g', Run.do_ok.mpr ⟨nodes, lookup_ok.mpr hn, hg'⟩⟩
  have spans := connect_spans made.empty made.below connected
  refine ⟨m, g, created, connected, fun layer mem srcname hsrc => ?_⟩
  obtain ⟨src, srcMem, rfl⟩ := h.sources layer mem srcname hsrc
  obtain ⟨nodes, srcnodes, hn, hs, -, -, covers⟩ := each mem srcMem hsrc
  have via {u v : Nat} (hu : u ∈ srcnodes) (hv : v ∈ nodes) :=
    (spans.via_iff (connectParts_inserts factory net m) (made.below _ _ hs u hu) (made.below _ _ hn v hv)).trans
      (made.joins_iff h.names mem hsrc srcMem hn hs hu hv)
  refine ⟨nodes, srcnodes, hn, hs, fun v hv => ⟨?_, fun every u hu => ?_⟩⟩
  · obtain ⟨u, hu, pair⟩ := (covers v hv).1
    exact ⟨u, hu, (via hu hv).mpr pair⟩
  · exact (via hu hv).mpr ((covers v hv).2 every u hu)

/-- A net with a connection that is not served: a loop aborts or a node is not reached. -/
theorem not_connects_of_unserved {factory : Factory} (h : Connectable net n) {layer src : LayerProto}
    (mem : layer ∈ net) (srcMem : src ∈ net) (srcname : src.name ∈ layer.srclayers)
    (unserved : Unserved src.partitionDim layer.partitionDim (factory layer.type).srcNeuronConnection) :
    ¬ Connects factory net n := by
  rintro ⟨m, g, created, connected, realised⟩
  have made := createNodes_madeOf created
  have pos := h.some
  obtain ⟨nodes, srcnodes, hn, hs, reach⟩ := realised layer mem src.name srcname
  have count : nodes.length = n ∧ srcnodes.length = n := by
    obtain ⟨us, hus, -, count⟩ := made.lookups (declared_of_nodup h.names mem)
    obtain ⟨vs, hvs, -, srcCount⟩ := made.lookups (declared_of_nodup h.names srcMem)
    cases hn.symm.trans hus
    cases hs.symm.trans hvs
    rcases unserved with ⟨hs, hd⟩ | ⟨hs, hd, -⟩ | ⟨hs, hd, -⟩ <;> simp_all
  obtain ⟨v, hv⟩ := List.exists_mem_of_length_pos (l := nodes) (by omega)
  obtain ⟨u, hu, via⟩ := (reach v hv).1
  have spans := connect_spans made.empty made.below connected
  have pair := (made.joins_iff h.names mem srcname srcMem hn hs hu hv).mp
    ((spans.via_iff (connectParts_inserts factory net m) (made.below _ _ hs u hu)
      (made.below _ _ hn v hv)).mp via)
  have dead : wiring src.partitionDim layer.partitionDim (factory layer.type).srcNeuronConnection ∈
      [Wiring.exchange, .none] := by
    rcases unserved with ⟨hs, hd⟩ | ⟨hs, hd, hc⟩ | ⟨hs, hd, hc⟩ <;> simp [wiring, *]
  simp only [List.mem_cons, List.not_mem_nil, or_false] at dead
  rcases dead with dead | dead <;> simp [dead, Wiring.pairs] at pair

/-- **The connection loop realises every declared connection exactly when each of them is served**:
no layer on dimension 1 feeds one on dimension 0, and a source on dimension 0 (on dimension 1)
feeds a layer on dimension 1 only all-to-one (only one-to-one). -/
theorem connections_realised_iff {factory : Factory} (h : Connectable net n) :
    Connects factory net n ↔ ∀ layer ∈ net, ∀ src ∈ net, src.name ∈ layer.srclayers →
      ¬ Unserved src.partitionDim layer.partitionDim (factory layer.type).srcNeuronConnection :=
  ⟨fun connects _ mem _ srcMem srcname unserved =>
    not_connects_of_unserved h mem srcMem srcname unserved connects, connects_of_served h⟩

/-- Data, a layer on dimension 0, a fully connected one on dimension 1 and a loss. -/
def servedNet : List LayerProto :=
  [{ name := "data", type := .kShardData },
    { name := "relu", type := .kReLU, srclayers := ["data"], partitionDim := 0 },
    { name := "fc", type := .kInnerProduct, srclayers := ["relu"], partitionDim := 1 },
    { name := "loss", type := .kSoftmaxLoss, srclayers := ["fc", "data"] }]

theorem servedNet_connectable : Connectable servedNet 2 :=
  ⟨by decide, by decide, by decide, by decide⟩

theorem connections_realised_served_net : Connectable servedNet 2 ∧ Connects registeredLayers servedNet 2 :=
  ⟨servedNet_connectable, (connections_realised_iff servedNet_connectable).mpr (by decide)⟩

/-- Two fully connected layers on dimension 1: no case of the loop serves their connection. -/
def droppedNet : List LayerProto :=
  [{ name := "data", type := .kShardData },
    { name := "fc1", type := .kInnerProduct, srclayers := ["data"], partitionDim := 1 },
    { name := "fc2", type := .kInnerProduct, srclayers := ["fc1"], partitionDim := 1 }]

theorem dropped_net_not_realised : Connectable droppedNet 2 ∧ ¬ Connects registeredLayers droppedNet 2 := by
  have connectable : Connectable droppedNet 2 := ⟨by decide, by decide, by decide, by decide⟩
  refine ⟨connectable, ?_⟩
  have layer : droppedNet[2] ∈ droppedNet := List.getElem_mem _
  have src : droppedNet[1] ∈ droppedNet := List.getElem_mem _
  exact not_connects_of_unserved connectable layer src (by decide) (by decide)

end Singa.NeuralNet
