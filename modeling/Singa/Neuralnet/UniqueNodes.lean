import Mathlib.Data.List.TakeWhile
import Singa.Neuralnet.NodeNames

/-!
# When the nodes have distinct names

The names of `createGraph` are those of the layer nodes, those of the nodes that
the connection loop inserts and those of the Split pass (`createGraph_names`).
They are distinct exactly if no partition id is cut, no two connections insert a
node at the same end, and no source with a Split node of the connection loop gets
a second one in the Split pass.
-/

namespace Singa.NeuralNet
set_option autoImplicit false

variable {g g' : NetGraph} {n : Nat} {net : List LayerProto} {m : Made} {factory : Factory}

/-! ## Suffixes and layer nodes -/

/-- The number that digits stand for. -/
def digitsValue (digits : List Char) : Nat := digits.foldl (fun v c => 10 * v + (c.toNat - '0'.toNat)) 0

/-- Three digits are enough below 1000. -/
theorem suffix_value : ∀ i < 1000, digitsValue (suffix i).toList = i := by
  have table : ∀ i < 1000,
      digitsValue ((if i < 10 then '0' :: Nat.toDigits 10 i else Nat.toDigits 10 i).take 3) = i := by
    decide +kernel
  intro i hi
  rw [suffix, String.toList_ofList]
  exact table i hi

theorem suffix_digits {i : Nat} {c : Char} (h : c ∈ (suffix i).toList) : c.isDigit := by
  rw [suffix, String.toList_ofList] at h
  have mem := List.mem_of_mem_take h
  split at mem
  · rcases List.mem_cons.mp mem with rfl | mem
    · rfl
    · exact Nat.isDigit_of_mem_toDigits (by decide) (by decide) mem
  · exact Nat.isDigit_of_mem_toDigits (by decide) (by decide) mem

theorem partNames_nodup (name : String) (n : Nat) :
    ((List.range n).map fun i => name ++ "@" ++ suffix i).Nodup ↔ n ≤ 1000 := by
  constructor
  · intro nodup
    by_contra more
    have cut : suffix 100 = suffix 1000 := by decide
    have same := List.inj_on_of_nodup_map nodup (List.mem_range.mpr (show 100 < n by omega))
      (List.mem_range.mpr (show 1000 < n by omega)) (by rw [cut])
    omega
  · intro few
    refine List.Nodup.map_on (fun i hi j hj same => ?_) List.nodup_range
    rw [List.mem_range] at hi hj
    rw [String.append_right_inj] at same
    rw [← suffix_value i (by omega), same, suffix_value j (by omega)]

/-- `CreateGraph` makes one node for each partition of the layer. -/
def Partitioned (layer : LayerProto) : Prop := layer.partitionDim = 0 ∨ layer.partitionDim = 1

instance (layer : LayerProto) : Decidable (Partitioned layer) := inferInstanceAs (Decidable (_ ∨ _))

theorem nodeNames_nodup (n : Nat) (layer : LayerProto) :
    (nodeNames n layer).Nodup ↔ (Partitioned layer → n ≤ 1000) := by
  rw [nodeNames]
  by_cases dim : layer.partitionDim = 0 ∨ layer.partitionDim = 1
  · rw [if_pos dim, partNames_nodup]
    simp [Partitioned, dim]
  · rw [if_neg dim]
    simp [Partitioned, dim]

theorem nodeNames_ne_nil (pos : 1 ≤ n) (layer : LayerProto) : nodeNames n layer ≠ [] := by
  rw [nodeNames]
  split
  · simp
    omega
  · simp

/-- The name of a layer node up to the `@` is the name of its layer. -/
theorem nodeNames_layer {layer : LayerProto} (plain : Plain layer.name) {name : String}
    (h : name ∈ nodeNames n layer) : name.toList.takeWhile (· ≠ '@') = layer.name.toList := by
  have whole : layer.name.toList.takeWhile (· ≠ '@') = layer.name.toList := by
    refine List.takeWhile_eq_self_iff.mpr fun c hc => ?_
    have := plain c hc
    simp_all
  rw [nodeNames] at h
  split at h
  · obtain ⟨i, -, rfl⟩ := List.mem_map.mp h
    rw [String.toList_append, String.toList_append, List.append_assoc, List.takeWhile_append, whole]
    simp
  · rw [List.mem_singleton.mp h, whole]

/-- The characters of the inserted names do not occur in the name of a layer node. -/
theorem nodeNames_chars {layer : LayerProto} (plain : Plain layer.name) {name : String}
    (h : name ∈ nodeNames n layer) : ∀ c ∈ name.toList, c ∉ ['<', '>', '+'] := by
  have own : ∀ c ∈ layer.name.toList, c ∉ ['<', '>', '+'] := fun c hc => by
    have := plain c hc
    simp_all
  rw [nodeNames] at h
  split at h
  · obtain ⟨i, -, rfl⟩ := List.mem_map.mp h
    intro c hc
    rw [String.toList_append, String.toList_append] at hc
    rcases List.mem_append.mp hc with hc | digit
    · rcases List.mem_append.mp hc with hc | sign
      · exact own c hc
      · rw [List.mem_singleton.mp sign]
        decide
    · have digit := suffix_digits digit
      intro mark
      simp only [List.mem_cons, List.not_mem_nil, or_false] at mark
      rcases mark with rfl | rfl | rfl <;> simp at digit
  · rwa [List.mem_singleton.mp h]

/-! ## Inserted nodes -/

/-- Two connections whose inserted nodes are named after the same end. -/
def Clash (factory : Factory) (a b : LayerProto × LayerProto) : Prop :=
  linkWiring factory a = linkWiring factory b ∧
    ((linkWiring factory a = .slice ∨ linkWiring factory a = .split) ∧ a.1 = b.1 ∨
      linkWiring factory a = .concate ∧ a.2 = b.2)

instance (factory : Factory) (a b : LayerProto × LayerProto) : Decidable (Clash factory a b) :=
  inferInstanceAs (Decidable (_ ∧ _))

theorem links_mem {link : LayerProto × LayerProto} (h : link ∈ links net) : link.1 ∈ net ∧ link.2 ∈ net := by
  obtain ⟨layer, mem, h⟩ := List.mem_flatMap.mp h
  obtain ⟨srcname, -, h⟩ := List.mem_filterMap.mp h
  obtain ⟨src, hsrc, rfl⟩ := Option.map_eq_some_iff.mp h
  exact ⟨(declared_mem hsrc).1, mem⟩

theorem linkWiring_src {link : LayerProto × LayerProto}
    (h : linkWiring factory link = .slice ∨ linkWiring factory link = .split) : nodeNames n link.1 = [link.1.name] := by
  have dim : link.1.partitionDim = -1 := by
    by_contra other
    rw [linkWiring, wiring, if_neg other] at h
    split_ifs at h <;> simp at h
  simp [nodeNames, dim]

/-- What the name of an inserted node looks like. -/
theorem linkNames_cases {link : LayerProto × LayerProto} {name : String} (h : name ∈ linkNames factory n link) :
    (linkWiring factory link = .slice ∧ name = link.1.name ++ "<") ∨
      (linkWiring factory link = .split ∧ name = link.1.name ++ "+") ∨
      (linkWiring factory link = .concate ∧ ∃ node ∈ nodeNames n link.2, name = ">" ++ node) := by
  rw [linkNames] at h
  cases hw : linkWiring factory link with
  | slice =>
    rw [hw, linkWiring_src (.inl hw)] at h
    exact .inl ⟨rfl, by simpa [Wiring.inserts] using h⟩
  | split =>
    rw [hw, linkWiring_src (.inr hw)] at h
    exact .inr (.inl ⟨rfl, by simpa [Wiring.inserts] using h⟩)
  | concate =>
    rw [hw] at h
    obtain ⟨node, mem, rfl⟩ := List.mem_map.mp h
    exact .inr (.inr ⟨rfl, node, mem, rfl⟩)
  | edge | exchange | pairwise | none => simp [hw, Wiring.inserts] at h

/-- The inserted names are told apart by their last character, or by a `>` in front. -/
theorem linkNames_marks {link : LayerProto × LayerProto} (srcPlain : Plain link.1.name) (plain : Plain link.2.name)
    {name : String} (h : name ∈ linkNames factory n link) :
    ('<' ∈ name.toList ↔ linkWiring factory link = .slice) ∧
      ('+' ∈ name.toList ↔ linkWiring factory link = .split) ∧
      ('>' ∈ name.toList ↔ linkWiring factory link = .concate) := by
  have no (c : Char) (mark : c ∈ ['@', '<', '>', '+', ':']) : c ∉ link.1.name.toList :=
    fun mem => srcPlain c mem mark
  rcases linkNames_cases h with ⟨w, rfl⟩ | ⟨w, rfl⟩ | ⟨w, node, mem, rfl⟩
  · simp [w, no]
  · simp [w, no]
  · have chars (c : Char) (mark : c ∈ ['<', '>', '+']) : c ∉ node.toList :=
      fun hc => nodeNames_chars plain mem c hc mark
    simp [w, chars]

/-- The nets that the names are about. -/
structure PlainNet (net : List LayerProto) : Prop where
  distinct : (net.map LayerProto.name).Nodup
  plain : ∀ layer ∈ net, Plain layer.name

theorem PlainNet.eq (h : PlainNet net) {a b : LayerProto} (ha : a ∈ net) (hb : b ∈ net) (same : a.name = b.name) :
    a = b :=
  List.inj_on_of_nodup_map h.distinct ha hb same

theorem nodeNames_disjoint (h : PlainNet net) {a b : LayerProto} (ha : a ∈ net) (hb : b ∈ net) {name : String}
    (mem : name ∈ nodeNames n a) (mem' : name ∈ nodeNames n b) : a = b := by
  have same := (nodeNames_layer (h.plain a ha) mem).symm.trans (nodeNames_layer (h.plain b hb) mem')
  exact h.eq ha hb (String.toList_inj.mp same)

/-- The names of the layer nodes are distinct when no partition id is cut. -/
theorem baseNames_nodup (h : PlainNet net) (n : Nat) :
    (net.flatMap (nodeNames n)).Nodup ↔ ∀ layer ∈ net, Partitioned layer → n ≤ 1000 := by
  rw [List.nodup_flatMap]
  simp only [nodeNames_nodup]
  refine and_iff_left ?_
  have nodup : net.Nodup := List.Nodup.of_map _ h.distinct
  refine nodup.imp_of_mem fun ha hb ne name mem mem' => ne ?_
  exact nodeNames_disjoint h ha hb mem mem'

theorem linkNames_nodup (link : LayerProto × LayerProto) (few : Partitioned link.2 → n ≤ 1000) :
    (linkNames factory n link).Nodup := by
  rw [linkNames]
  cases hw : linkWiring factory link with
  | slice =>
    rw [linkWiring_src (.inl hw)]
    exact List.nodup_singleton _
  | split =>
    rw [linkWiring_src (.inr hw)]
    exact List.nodup_singleton _
  | concate =>
    exact ((nodeNames_nodup n link.2).mpr few).map fun a b same => (String.append_right_inj _).mp same
  | edge | exchange | pairwise | none => exact List.nodup_nil

theorem linkNames_disjoint (h : PlainNet net) (pos : 1 ≤ n) {a b : LayerProto × LayerProto} (ha : a ∈ links net)
    (hb : b ∈ links net) :
    (linkNames factory n a).Disjoint (linkNames factory n b) ↔ ¬ Clash factory a b := by
  obtain ⟨srcA, dstA⟩ := links_mem ha
  obtain ⟨srcB, dstB⟩ := links_mem hb
  constructor
  · rintro disjoint ⟨same, ⟨w | w, src⟩ | ⟨w, dst⟩⟩
    · have w' := same ▸ w
      refine disjoint (a := a.1.name ++ "<") ?_ ?_
      · simp [linkNames, w, linkWiring_src (.inl w), Wiring.inserts]
      · simp [linkNames, w', linkWiring_src (.inl w'), Wiring.inserts, src]
    · have w' := same ▸ w
      refine disjoint (a := a.1.name ++ "+") ?_ ?_
      · simp [linkNames, w, linkWiring_src (.inr w), Wiring.inserts]
      · simp [linkNames, w', linkWiring_src (.inr w'), Wiring.inserts, src]
    · have w' := same ▸ w
      obtain ⟨node, mem⟩ := List.exists_mem_of_ne_nil _ (nodeNames_ne_nil pos a.2)
      refine disjoint (a := ">" ++ node) ?_ ?_
      · simpa [linkNames, w, Wiring.inserts] using mem
      · rw [dst] at mem
        simpa [linkNames, w', Wiring.inserts] using mem
  · intro apart name memA memB
    have marksA := linkNames_marks (h.plain _ srcA) (h.plain _ dstA) memA
    have marksB := linkNames_marks (h.plain _ srcB) (h.plain _ dstB) memB
    rcases linkNames_cases memA with ⟨w, rfl⟩ | ⟨w, rfl⟩ | ⟨w, node, mem, rfl⟩
    · have w' := marksB.1.mp (marksA.1.mpr w)
      have names : a.1.name = b.1.name := by
        simpa [linkNames, w', linkWiring_src (.inl w'), Wiring.inserts] using memB
      exact apart ⟨w.trans w'.symm, .inl ⟨.inl w, h.eq srcA srcB names⟩⟩
    · have w' := marksB.2.1.mp (marksA.2.1.mpr w)
      have names : a.1.name = b.1.name := by
        simpa [linkNames, w', linkWiring_src (.inr w'), Wiring.inserts] using memB
      exact apart ⟨w.trans w'.symm, .inl ⟨.inr w, h.eq srcA srcB names⟩⟩
    · have w' := marksB.2.2.mp (marksA.2.2.mpr w)
      have mem' : node ∈ nodeNames n b.2 := by simpa [linkNames, w', Wiring.inserts] using memB
      exact apart ⟨w.trans w'.symm, .inr ⟨w, nodeNames_disjoint h dstA dstB mem mem'⟩⟩

/-- The names after the connection loop. -/
theorem connectNames_nodup (h : PlainNet net) (pos : 1 ≤ n) :
    (net.flatMap (nodeNames n) ++ (links net).flatMap (linkNames factory n)).Nodup ↔
      (∀ layer ∈ net, Partitioned layer → n ≤ 1000) ∧ (links net).Pairwise fun a b => ¬ Clash factory a b := by
  have apart : (net.flatMap (nodeNames n)).Disjoint ((links net).flatMap (linkNames factory n)) := by
    intro name memA memB
    obtain ⟨layer, mem, memA⟩ := List.mem_flatMap.mp memA
    obtain ⟨link, mem', memB⟩ := List.mem_flatMap.mp memB
    have chars := nodeNames_chars (h.plain layer mem) memA
    obtain ⟨src, dst⟩ := links_mem mem'
    obtain ⟨slice, split, concate⟩ := linkNames_marks (h.plain _ src) (h.plain _ dst) memB
    rcases linkNames_cases memB with ⟨w, -⟩ | ⟨w, -⟩ | ⟨w, -⟩
    · exact chars '<' (slice.mpr w) (by decide)
    · exact chars '+' (split.mpr w) (by decide)
    · exact chars '>' (concate.mpr w) (by decide)
  rw [List.nodup_append', baseNames_nodup h, and_iff_left apart, List.nodup_flatMap]
  refine and_congr_right fun few => ?_
  have each : ∀ link ∈ links net, (linkNames factory n link).Nodup := fun link mem =>
    linkNames_nodup link (few link.2 (links_mem mem).2)
  rw [and_iff_right each]
  exact List.Pairwise.iff_of_mem fun ha hb => linkNames_disjoint h pos ha hb

/-! ## The returned graph -/

theorem Named.numbered {base : NetGraph} {names : List String} {outs : Nat → Nat} (h : Named base names outs g)
    (start : base.nodes.Perm (List.range base.size)) : g.nodes.Perm (List.range g.size) := by
  have joined : List.range base.size ++ List.range' base.size (g.size - base.size) = List.range g.size := by
    have grown := h.grown
    rw [List.range_eq_range', List.range_eq_range']
    convert List.range'_append_1 (s := 0) (m := base.size) using 2
    · rw [Nat.zero_add]
    · omega
  rw [h.nodes, ← joined]
  exact start.append_right _

/-- `Sort` on a graph that lists its nodes once. -/
theorem sort_numbered {fuel : Nat} (closed : Closed g) (numbered : g.nodes.Perm (List.range g.size))
    (h : g.sort fuel = .ok g') : g'.node = g.node ∧ g'.size = g.size ∧ g'.nodes.Perm g.nodes := by
  obtain ⟨node, size⟩ := Graph.sort_node h
  refine ⟨node, size, Graph.sort_perm (numbered.nodup_iff.mpr List.nodup_range) (fun u _ v hv => ?_) h⟩
  exact numbered.mem_iff.mpr (List.mem_range.mpr (closed u v (.inl hv)).2)

theorem splitPass_closed {oldnodes : List Nat} (closed : Closed g) (h : splitPass factory oldnodes g = .ok g') :
    Closed g' :=
  Run.foldlM_inv (fun _ s => Closed s) (fun _ _ _ _ inv pass => (splitDst_spec inv pass).1) closed h

/-- The graphs that `createGraph` goes through; the bridge pass leaves the one it gets. -/
theorem createGraph_stages {fuel : Nat} (distinct : (net.map LayerProto.name).Nodup)
    (run : createGraph fuel factory net n = .ok g) :
    ∃ m c sorted split outs, createNodes n net = .ok m ∧ connect factory net m = .ok c ∧
      (sorted.node = c.node ∧ sorted.size = c.size ∧ sorted.nodes.Perm c.nodes) ∧
      Named sorted ((sorted.nodes.filter (Splits factory sorted)).map fun u => (sorted.node u).name ++ "+")
        outs split ∧
      (g.node = split.node ∧ g.size = split.size ∧ g.nodes.Perm split.nodes) ∧
      g.nodes.Perm (List.range g.size) := by
  obtain ⟨m, c, sorted, split, created, connected, first, pass, last⟩ := createGraph_ok run
  have made := createNodes_madeOf created
  have labelled := createNodes_labelled created
  have named := connect_named made labelled distinct connected
  have closed : Closed c := (connect_spans made.empty made.below connected).closed
  have numbered := named.numbered (.of_eq labelled.numbered)
  obtain ⟨node, size, perm⟩ := sort_numbered closed numbered first
  have closed' : Closed sorted := by
    simpa only [Closed, Graph.Touches, node, size] using closed
  have numbered' : sorted.nodes.Perm (List.range sorted.size) := size ▸ perm.trans numbered
  have inside : ∀ u ∈ sorted.nodes, u < sorted.size := fun u hu => List.mem_range.mp (numbered'.mem_iff.mp hu)
  obtain ⟨outs, after⟩ := splitPass_named (numbered'.nodup_iff.mpr List.nodup_range) inside inside pass
  have numberedSplit := after.numbered numbered'
  obtain ⟨node', size', perm'⟩ := sort_numbered (splitPass_closed closed' pass) numberedSplit last
  exact ⟨m, c, sorted, split, outs, created, connected, ⟨node, size, perm⟩, after, ⟨node', size', perm'⟩,
    size' ▸ perm'.trans numberedSplit⟩

/-- The names of the returned graph, in terms of the graph that the connection loop leaves. -/
theorem createGraph_names {fuel : Nat} (h : PlainNet net) (run : createGraph fuel factory net n = .ok g) :
    ∃ m c, createNodes n net = .ok m ∧ connect factory net m = .ok c ∧
      c.nodes.map (fun u => (c.node u).name) =
        net.flatMap (nodeNames n) ++ (links net).flatMap (linkNames factory n) ∧
      (g.nodes.map fun u => (g.node u).name).Perm (c.nodes.map (fun u => (c.node u).name) ++
        (c.nodes.filter (Splits factory c)).map fun u => (c.node u).name ++ "+") := by
  obtain ⟨m, c, sorted, split, outs, created, connected, ⟨node, -, perm⟩, after, ⟨node', -, perm'⟩, -⟩ :=
    createGraph_stages h.distinct run
  have labelled := createNodes_labelled created
  have named := connect_named (createNodes_madeOf created) labelled h.distinct connected
  refine ⟨m, c, created, connected, by rw [named.names, labelled.names], ?_⟩
  have same : sorted.nodes.filter (Splits factory sorted) = sorted.nodes.filter (Splits factory c) :=
    List.filter_congr fun u _ => decide_eq_decide.mpr (by rw [Splits, Splits, node])
  rw [node']
  refine (perm'.map _).trans ?_
  rw [after.names, same, node]
  exact (perm.map _).append ((perm.filter _).map _)

/-- The condition for distinct names. -/
structure DistinctNodes (factory : Factory) (net : List LayerProto) (npartitions : Nat) : Prop where
  /-- `snprintf` cuts no partition id. -/
  suffixes : ∀ layer ∈ net, Partitioned layer → npartitions ≤ 1000
  /-- No two connections insert a node at the same end. -/
  insertions : (links net).Pairwise fun a b => ¬ Clash factory a b
  /-- A source with a Split node of the connection loop gets no other in the Split pass. -/
  splits : ∀ link ∈ links net, linkWiring factory link = .split →
    (factory link.1.type).dstLayerConnection = .kOneToOne → ((links net).filter (·.1 = link.1)).length ≤ 1

theorem sum_eq_length_filter {α : Type} (l : List α) (p : α → Prop) [DecidablePred p] (f : α → Nat)
    (each : ∀ a ∈ l, f a = if p a then 1 else 0) : (l.map f).sum = (l.filter p).length := by
  induction l with
  | nil => rfl
  | cons a l ih =>
    rw [List.map_cons, List.sum_cons, each a (by simp), ih fun b hb => each b (List.mem_cons_of_mem a hb)]
    by_cases here : p a
    · simp [here, Nat.add_comm]
    · simp [here]

/-- The edges that a connection adds at a node, where the node is the only one of a layer. -/
theorem linkOuts_single {w : Wiring} {s : Nat} {nodes : List Nat} (served : w ∈ [Wiring.slice, .edge, .split]) :
    w.outs [s] nodes s = 1 := by
  simp only [List.mem_cons, List.not_mem_nil, or_false] at served
  rcases served with rfl | rfl | rfl <;> simp [Wiring.outs]

theorem linkOuts_other (w : Wiring) {s : Nat} {srcnodes : List Nat} (nodes : List Nat) (absent : s ∉ srcnodes) :
    w.outs srcnodes nodes s = 0 := by
  have none := List.count_eq_zero.mpr absent
  have first : (srcnodes.take 1).count s = 0 :=
    List.count_eq_zero.mpr fun mem => absent (List.mem_of_mem_take mem)
  cases w <;> simp only [Wiring.outs, none, first, Nat.mul_zero]

/-- An unpartitioned layer has one node, with one destination for each connection from it. -/
theorem connect_unpartitioned (h : PlainNet net) (created : createNodes n net = .ok m)
    (connected : connect factory net m = .ok g) {src : LayerProto} (mem : src ∈ net)
    (dim : src.partitionDim = -1) :
    ∃ s ∈ g.nodes, (g.node s).name = src.name ∧ (g.node s).proto.type = src.type ∧
      (g.node s).dstnodes.length = ((links net).filter (·.1 = src)).length := by
  have made := createNodes_madeOf created
  have labelled := createNodes_labelled created
  have named := connect_named made labelled h.distinct connected
  obtain ⟨us, hus, -, count⟩ := made.lookups (declared_of_nodup h.distinct mem)
  obtain ⟨s, rfl⟩ := List.length_eq_one_iff.mp (count.trans (by simp [dim]))
  obtain ⟨layer, hl, labels⟩ := labelled.nodes _ _ hus
  rw [declared_of_nodup h.distinct mem] at hl
  cases hl
  have label : (m.graph.node s).label = (src.name, src.name, 0, src) := by
    simpa [layerLabels, dim] using labels
  have below : s < m.graph.size := made.below _ _ hus s (by simp)
  refine ⟨s, ?_, ?_, ?_, ?_⟩
  · rw [named.nodes, labelled.numbered]
    exact List.mem_append_left _ (List.mem_range.mpr below)
  · exact congrArg Prod.fst ((named.label s below).trans label)
  · exact congrArg (fun label => label.2.2.2.type) ((named.label s below).trans label)
  · rw [named.outs s below]
    refine sum_eq_length_filter _ _ _ fun link hlink => ?_
    obtain ⟨srcMem, dstMem⟩ := links_mem hlink
    obtain ⟨srcnodes, hs, -⟩ := made.lookups (declared_of_nodup h.distinct srcMem)
    obtain ⟨nodes, hn, -⟩ := made.lookups (declared_of_nodup h.distinct dstMem)
    rw [linkOuts, hs, hn]
    show (linkWiring factory link).outs srcnodes nodes s = _
    split_ifs with same
    · rw [same, hus] at hs
      cases hs
      refine linkOuts_single ?_
      rw [linkWiring, wiring, same, if_pos dim]
      split_ifs <;> simp
    · refine linkOuts_other _ nodes fun mem' => ?_
      refine made.apart _ _ srcnodes [s] (fun names => same (h.eq srcMem mem names)) hs hus mem' (by simp)

/-- The names of the Split pass are new exactly if no source gets a second Split node. -/
theorem splitNames_disjoint (h : PlainNet net) (created : createNodes n net = .ok m)
    (connected : connect factory net m = .ok g)
    (names : g.nodes.map (fun u => (g.node u).name) =
      net.flatMap (nodeNames n) ++ (links net).flatMap (linkNames factory n))
    (unique : UniqueNames g) :
    (g.nodes.map fun u => (g.node u).name).Disjoint
        ((g.nodes.filter (Splits factory g)).map fun u => (g.node u).name ++ "+") ↔
      ∀ link ∈ links net, linkWiring factory link = .split →
        (factory link.1.type).dstLayerConnection = .kOneToOne → ((links net).filter (·.1 = link.1)).length ≤ 1 := by
  have source (link : LayerProto × LayerProto) (mem : link ∈ links net) (w : linkWiring factory link = .split) := by
    have dim : link.1.partitionDim = -1 := by
      by_contra other
      rw [linkWiring, wiring, if_neg other] at w
      split_ifs at w
    exact connect_unpartitioned h created connected (links_mem mem).1 dim
  constructor
  · intro disjoint link mem w single
    obtain ⟨s, inside, name, type, count⟩ := source link mem w
    by_contra several
    have splits : Splits factory g s := ⟨by omega, by rw [type, single]⟩
    refine disjoint (a := link.1.name ++ "+") ?_ ?_
    · rw [names]
      refine List.mem_append_right _ (List.mem_flatMap.mpr ⟨link, mem, ?_⟩)
      simp [linkNames, w, linkWiring_src (.inr w), Wiring.inserts]
    · rw [← name]
      exact List.mem_map_of_mem (List.mem_filter.mpr ⟨inside, by simpa using splits⟩)
  · intro alone name old new
    obtain ⟨u, hu, rfl⟩ := List.mem_map.mp new
    obtain ⟨inside, splits⟩ := List.mem_filter.mp hu
    have plus : '+' ∈ ((g.node u).name ++ "+").toList := by simp
    rw [names] at old
    rcases List.mem_append.mp old with base | inserted
    · obtain ⟨layer, mem, base⟩ := List.mem_flatMap.mp base
      exact nodeNames_chars (h.plain layer mem) base '+' plus (by decide)
    · obtain ⟨link, mem, inserted⟩ := List.mem_flatMap.mp inserted
      obtain ⟨src, dst⟩ := links_mem mem
      have w := (linkNames_marks (h.plain _ src) (h.plain _ dst) inserted).2.1.mp plus
      obtain ⟨s, insideS, name, type, count⟩ := source link mem w
      have same : (g.node u).name = link.1.name := by
        simpa [linkNames, w, linkWiring_src (.inr w), Wiring.inserts] using inserted
      obtain rfl := unique.eq inside insideS (same.trans name.symm)
      have splits : Splits factory g u := by simpa using splits
      have few := alone link mem w (by rw [← type, splits.2])
      have several := splits.1
      omega

/-- **The nodes of the graph that `CreateGraph` returns have distinct names exactly if no partition
id is cut, no two connections insert a node at the same end and no source gets two Split nodes.** -/
theorem createGraph_uniqueNames_iff {fuel : Nat} (h : PlainNet net) (pos : 1 ≤ n)
    (run : createGraph fuel factory net n = .ok g) : UniqueNames g ↔ DistinctNodes factory net n := by
  obtain ⟨m, c, created, connected, names, perm⟩ := createGraph_names h run
  rw [UniqueNames, perm.nodup_iff, List.nodup_append']
  have first : (c.nodes.map fun u => (c.node u).name).Nodup ↔ _ := names ▸ connectNames_nodup h pos
  constructor
  · rintro ⟨old, -, apart⟩
    obtain ⟨few, insertions⟩ := first.mp old
    exact ⟨few, insertions, (splitNames_disjoint h created connected names old).mp apart⟩
  · rintro ⟨few, insertions, splits⟩
    have old := first.mpr ⟨few, insertions⟩
    refine ⟨old, ?_, (splitNames_disjoint h created connected names old).mpr splits⟩
    have sub : List.Sublist ((c.nodes.filter (Splits factory c)).map fun u => (c.node u).name)
        (c.nodes.map fun u => (c.node u).name) := List.filter_sublist.map _
    have split := (old.sublist sub).map fun a b same => (String.append_left_inj "+").mp same
    rwa [List.map_map] at split

theorem createGraph_uniqueNames_served :
    PlainNet servedNet ∧ ∃ g, createGraph 40 registeredLayers servedNet 2 = .ok g ∧ UniqueNames g := by
  have plain : PlainNet servedNet := ⟨by decide, by decide⟩
  obtain ⟨g, run⟩ : ∃ g, createGraph 40 registeredLayers servedNet 2 = .ok g := Run.exists_of_isOk (by decide +kernel)
  refine ⟨plain, g, run, (createGraph_uniqueNames_iff plain (by decide) run).mpr ⟨?_, ?_, ?_⟩⟩
  · exact fun _ _ _ => by decide
  · decide
  · decide

/-- A data layer that feeds two layers on dimension 0. -/
def twiceSlicedNet : List LayerProto :=
  [{ name := "data", type := .kShardData },
    { name := "relu", type := .kReLU, srclayers := ["data"], partitionDim := 0 },
    { name := "tanh", type := .kTanh, srclayers := ["data"], partitionDim := 0 }]

/-- Both Slice nodes are called `data<`. -/
theorem twice_sliced_net_not_unique :
    PlainNet twiceSlicedNet ∧
      ∃ g, createGraph 40 registeredLayers twiceSlicedNet 2 = .ok g ∧ ¬ UniqueNames g := by
  have plain : PlainNet twiceSlicedNet := ⟨by decide, by decide⟩
  obtain ⟨g, run⟩ : ∃ g, createGraph 40 registeredLayers twiceSlicedNet 2 = .ok g :=
    Run.exists_of_isOk (by decide +kernel)
  refine ⟨plain, g, run, fun unique => ?_⟩
  obtain ⟨m, c, -, -, names, perm⟩ := createGraph_names plain run
  have old := (List.nodup_append'.mp (perm.nodup_iff.mp unique)).1
  rw [names] at old
  exact absurd ((connectNames_nodup plain (by decide)).mp old).2 (by decide)

end Singa.NeuralNet
