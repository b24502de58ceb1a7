import Singa.Base.Gather
import Singa.Neuralnet.CreateGraph

/-!
# The Split pass and the order of the sources

A layer reads its sources by position, `srclayers_[0]`, `srclayers_[1]`, and so
on. The Split pass takes a node out of the sources of its destinations and puts
its Split node at their end, so the sources of a node keep their positions
exactly if those that are split already stand at the end, in the order in which
the pass comes to them.
-/

namespace Singa.NeuralNet
set_option autoImplicit false

open Gather

variable {factory : Factory} {g g' s : NetGraph} {u v : Nat}

/-- The Split pass gives `u` a Split node. -/
def Splits (factory : Factory) (g : NetGraph) (u : Nat) : Prop :=
  1 < (g.node u).dstnodes.length ∧ (factory (g.node u).proto.type).dstLayerConnection = .kOneToOne

instance (factory : Factory) (g : NetGraph) (u : Nat) : Decidable (Splits factory g u) :=
  inferInstanceAs (Decidable (_ ∧ _))

/-- Every edge is recorded as often at its source as at its destination. -/
structure Mirrored (g : NetGraph) : Prop where
  numbered : ∀ u ∈ g.nodes, u < g.size
  dst : ∀ u ∈ g.nodes, (g.node u).dstnodes ⊆ g.nodes
  src : ∀ v ∈ g.nodes, (g.node v).srcnodes ⊆ g.nodes
  mirror : ∀ u ∈ g.nodes, ∀ v ∈ g.nodes, (g.node v).srcnodes.count u = (g.node u).dstnodes.count v

def UniqueNames (g : NetGraph) : Prop := (g.nodes.map fun u => (g.node u).name).Nodup

/-- `w` is the Split node of `u` in `g'`. -/
structure SplitNodeOf (g g' : NetGraph) (u w : Nat) : Prop where
  listed : w ∈ g'.nodes
  fresh : w ∉ g.nodes
  name : (g'.node w).name = (g.node u).name ++ "+"
  type : (g'.node w).proto.type = .kSplit
  into : (g'.node u).dstnodes = [w]
  src : (g'.node w).srcnodes = [u]
  dst : (g'.node w).dstnodes = (g.node u).dstnodes

/-- The sources of every node are those of `g`, with each split one replaced by its Split node. -/
def InPlace (factory : Factory) (g g' : NetGraph) : Prop :=
  ∃ split : Nat → Nat, (∀ u ∈ g.nodes, Splits factory g u → SplitNodeOf g g' u (split u)) ∧
    ∀ v ∈ g.nodes, (g'.node v).srcnodes =
      (g.node v).srcnodes.map fun u => if Splits factory g u then split u else u

/-! ## What the pass does -/

/-- The nodes that are split, in the order of the pass. -/
def splitNodes (factory : Factory) (g : NetGraph) : List Nat := g.nodes.filter (Splits factory g)

/-- The number that the Split node of `u` gets. -/
def splitOf (factory : Factory) (g : NetGraph) (u : Nat) : Nat := g.size + (splitNodes factory g).idxOf u

/-- The sources of `v` once the nodes `moved` are split. -/
def splitSrcnodes (factory : Factory) (g : NetGraph) (moved : List Nat) (v : Nat) : List Nat :=
  (g.node v).srcnodes.filter (· ∉ moved) ++
    moved.flatMap fun u => List.replicate ((g.node v).srcnodes.count u) (splitOf factory g u)

/-- The graph once the nodes `moved` are split. -/
structure Passed (factory : Factory) (g : NetGraph) (moved : List Nat) (s : NetGraph) : Prop where
  size : s.size = g.size + moved.length
  nodes : ∀ u ∈ moved, splitOf factory g u ∈ s.nodes
  old : ∀ v ∈ g.nodes, s.node v = { g.node v with
    srcnodes := splitSrcnodes factory g moved v
    dstnodes := if v ∈ moved then [splitOf factory g v] else (g.node v).dstnodes }
  new : ∀ u ∈ moved, ∃ n : Node LayerProto, s.node (splitOf factory g u) = n ∧
    n.name = (g.node u).name ++ "+" ∧ n.proto.type = .kSplit ∧ n.srcnodes = [u] ∧
    n.dstnodes = (g.node u).dstnodes

theorem Passed.start (factory : Factory) (g : NetGraph) : Passed factory g [] g := by
  refine ⟨rfl, fun _ h => (List.not_mem_nil h).elim, fun v _ => ?_, fun _ h => (List.not_mem_nil h).elim⟩
  simp [splitSrcnodes]

/-- `SplitNode`, node by node. -/
theorem splitNode_node {ds : List Nat} (below : u < g.size) (dstBelow : ∀ d ∈ ds, d < g.size) :
    (splitNode g u ds).1.size = g.size + 1 ∧ (splitNode g u ds).1.nodes = g.nodes ++ [g.size] ∧
      (∀ w, w ≠ g.size → (splitNode g u ds).1.node w = { g.node w with
        srcnodes := (g.node w).srcnodes ++ List.replicate (ds.count w) g.size
        dstnodes := (g.node w).dstnodes ++ if u = w then [g.size] else [] }) ∧
      ∃ n : Node LayerProto, (splitNode g u ds).1.node g.size = n ∧ n.name = (g.node u).name ++ "+" ∧
        n.proto.type = .kSplit ∧ n.srcnodes = [u] ∧ n.dstnodes = ds := by
  rw [splitNode]
  generalize hp : (⟨_, .kSplit, _, _, _, _, _⟩ : LayerProto) = proto
  let inserted := (insertNode g proto).1
  have node (w : Nat) : inserted.node w = if w = g.size then
      { name := proto.name, origin := "##" ++ proto.name, partitionId := proto.partitionId, proto } else g.node w :=
    Graph.addNode_node _
  have edges (w : Nat) := Graph.addEdges_node (g := inserted) (u := w) ((u, g.size) :: ds.map (g.size, ·))
  have ends : (ds.map (g.size, ·)).filter (fun e => e.2 = g.size) = [] := by
    simpa using fun d hd => (dstBelow d hd).ne
  refine ⟨Graph.addEdges_size _, Graph.addEdges_nodes _, fun w old => ?_, _, edges g.size, ?_⟩
  · refine (edges w).trans ?_
    rw [node w, if_neg old]
    have out : ((u, g.size) :: ds.map (g.size, ·)).filter (·.1 = w) = if u = w then [(u, g.size)] else [] := by
      rw [List.filter_cons, List.filter_map]
      simp [Function.comp_def, Ne.symm old]
    have into : (((u, g.size) :: ds.map (g.size, ·)).filter (·.2 = w)).map Prod.fst =
        List.replicate (ds.count w) g.size := by
      rw [List.filter_cons_of_neg (by simpa using Ne.symm old), List.filter_map, List.map_map,
        List.count_eq_length_filter, ← List.map_const']
      rfl
    rw [out, into]
    split_ifs <;> rfl
  · rw [node g.size, if_pos rfl]
    refine ⟨by rw [← hp], by rw [← hp], ?_, ?_⟩
    · simp [ends]
    · simp [below.ne, List.filter_map, Function.comp_def]

/-- The Split nodes get the numbers `g.size`, `g.size + 1`, .. in the order of the pass. -/
theorem splitOf_next {moved rest : List Nat} (whole : splitNodes factory g = moved ++ u :: rest) (new : u ∉ moved) :
    splitOf factory g u = g.size + moved.length := by
  rw [splitOf, whole, List.idxOf_append_of_notMem new, List.idxOf_cons_self, Nat.add_zero]

theorem splitOf_lt {moved rest : List Nat} (whole : splitNodes factory g = moved ++ rest) (mem : u ∈ moved) :
    splitOf factory g u < g.size + moved.length := by
  rw [splitOf, whole, List.idxOf_append_of_mem mem]
  exact Nat.add_lt_add_left (List.idxOf_lt_length_of_mem mem) _

theorem UniqueNames.nodup (unique : UniqueNames g) : g.nodes.Nodup := List.Nodup.of_map _ unique

theorem UniqueNames.eq (unique : UniqueNames g) (hu : u ∈ g.nodes) (hv : v ∈ g.nodes)
    (same : (g.node u).name = (g.node v).name) : u = v :=
  List.inj_on_of_nodup_map unique hu hv same

/-- The pass at a node that is split. -/
theorem Passed.split {moved rest : List Nat} (mirrored : Mirrored g) (unique : UniqueNames g)
    (h : Passed factory g moved s) (whole : splitNodes factory g = moved ++ u :: rest) :
    ∃ s', splitDst factory s u = .ok s' ∧ Passed factory g (moved ++ [u]) s' := by
  have distinct : (moved ++ u :: rest).Nodup := whole ▸ unique.nodup.filter _
  have new : u ∉ moved := fun h => (List.nodup_append.mp distinct).2.2 u h u (by simp) rfl
  obtain ⟨inside, splits⟩ : u ∈ g.nodes ∧ Splits factory g u := by
    have mem : u ∈ splitNodes factory g := by simp [whole]
    simpa [splitNodes] using mem
  have atU : (s.node u).dstnodes = (g.node u).dstnodes := by
    rw [h.old u inside, if_neg new]
  have type : (s.node u).proto = (g.node u).proto := by rw [h.old u inside]
  have name : ∀ v ∈ g.nodes, (s.node v).name = (g.node v).name := fun v hv => by rw [h.old v hv]
  have number : splitOf factory g u = s.size := (splitOf_next whole new).trans h.size.symm
  -- the records of `u` stand before the Split nodes that the pass has appended so far
  obtain ⟨mid, removed, size, nodes, node⟩ := Graph.removeEdges_ok atU
    (fun v => if v ∈ g.nodes then (g.node v).srcnodes.filter (· ∉ moved) else [])
    (fun v => if v ∈ g.nodes then moved.flatMap fun u =>
      List.replicate ((g.node v).srcnodes.count u) (splitOf factory g u) else (s.node v).srcnodes)
    (fun v => by
      split_ifs with hv
      · rw [h.old v hv]
        rfl
      · rfl)
    (fun v => by
      split_ifs with hv
      · rw [List.count_filter (by simpa using new)]
        exact mirrored.mirror u inside v hv
      · exact (List.count_eq_zero.mpr fun mem => hv (mirrored.dst u inside mem)).symm)
    (fun v x hx same => by
      split_ifs at hx with hv
      · have hx := mirrored.src v hv (List.mem_of_mem_filter hx)
        rw [name x hx, name u inside] at same
        exact unique.eq hx inside same
      · cases hx)
  have fromStart : g.size ≤ mid.size := by
    rw [size, h.size]
    exact Nat.le_add_right _ _
  have below : ∀ v ∈ g.nodes, v < mid.size := fun v hv => (mirrored.numbered v hv).trans_le fromStart
  obtain ⟨size', nodes', old, n, atNew, spec⟩ :=
    splitNode_node (below u inside) fun d hd => below d (mirrored.dst u inside hd)
  rw [← number] at size
  rw [size] at nodes' old atNew
  rw [show (mid.node u).name = (g.node u).name by rw [node u]; exact name u inside] at spec
  refine ⟨(splitNode mid u (g.node u).dstnodes).1, ?_, ?_, ?_, ?_, ?_⟩
  · rw [splitDst, atU, type]
    exact (if_pos splits).trans (Run.do_ok.mpr ⟨mid, removed, rfl⟩)
  · rw [size', size, splitOf_next whole new, List.length_append, List.length_singleton, Nat.add_assoc]
  · intro v hv
    rw [nodes', nodes]
    rcases List.mem_append.mp hv with before | here
    · exact List.mem_append_left _ (h.nodes v before)
    · rw [List.mem_singleton.mp here]
      simp
  · intro v hv
    have other : v ≠ splitOf factory g u := size ▸ (below v hv).ne
    have srcs : splitSrcnodes factory g (moved ++ [u]) v =
        ((g.node v).srcnodes.filter (· ∉ moved)).filter (· ≠ u) ++
          (moved.flatMap fun u => List.replicate ((g.node v).srcnodes.count u) (splitOf factory g u)) ++
          List.replicate ((g.node u).dstnodes.count v) (splitOf factory g u) := by
      rw [splitSrcnodes, List.filter_filter, List.flatMap_append, List.flatMap_singleton,
        mirrored.mirror u inside v hv, List.append_assoc]
      simp [not_or, and_comm]
    rw [srcs, old v other, node v, h.old v hv, if_pos hv, if_pos hv]
    by_cases here : v = u
    · subst here
      simp
    · simp [here, Ne.symm here]
  · intro v hv
    rcases List.mem_append.mp hv with before | here
    · have less : splitOf factory g v < splitOf factory g u := by
        rw [splitOf_next whole new]
        exact splitOf_lt whole before
      have outside : splitOf factory g v ∉ g.nodes := fun mem => by
        have := mirrored.numbered _ mem
        rw [splitOf] at this
        omega
      have notU : splitOf factory g v ≠ u := fun same => outside (same ▸ inside)
      obtain ⟨n, atV, spec⟩ := h.new v before
      refine ⟨n, ?_, spec⟩
      have noEdge : (g.node u).dstnodes.count (splitOf factory g v) = 0 :=
        List.count_eq_zero.mpr fun mem => outside (mirrored.dst u inside mem)
      rw [old _ less.ne, node, if_neg outside, if_neg outside, if_neg notU, if_neg notU.symm, noEdge, ← atV]
      simp
    · rw [List.mem_singleton.mp here]
      exact ⟨n, atNew, spec⟩

/-- The Split pass as a whole. -/
theorem splitPass_passed (factory : Factory) (mirrored : Mirrored g) (unique : UniqueNames g) :
    ∃ g', splitPass factory g.nodes g = .ok g' ∧ Passed factory g (splitNodes factory g) g' := by
  refine Run.foldlM_prefix (fun done s => Passed factory g (done.filter (Splits factory g)) s) ?_
    (Passed.start factory g)
  intro done u rest s whole inv
  by_cases splits : Splits factory g u
  · have here : splitNodes factory g =
        done.filter (Splits factory g) ++ u :: rest.filter (Splits factory g) := by
      rw [splitNodes, whole, List.filter_append, List.filter_cons_of_pos (by simpa using splits)]
    obtain ⟨s', pass, inv'⟩ := inv.split mirrored unique here
    refine ⟨s', pass, ?_⟩
    rwa [List.filter_append, List.filter_cons_of_pos (by simpa using splits), List.filter_nil]
  · have inside : u ∈ g.nodes := by simp [whole]
    refine ⟨s, ?_, ?_⟩
    · rw [splitDst, inv.old u inside, if_neg (c := u ∈ _) (by simp [splits])]
      exact if_neg splits
    · rwa [List.filter_append, List.filter_cons_of_neg (by simpa using splits), List.filter_nil, List.append_nil]

/-! ## Where the sources end up -/

/-- What stands for `u` among the sources after the pass. -/
def standIn (factory : Factory) (g : NetGraph) (u : Nat) : Nat :=
  if Splits factory g u then splitOf factory g u else u

theorem standIn_inj (mirrored : Mirrored g) (hu : u ∈ g.nodes) (hv : v ∈ g.nodes)
    (same : standIn factory g u = standIn factory g v) : u = v := by
  have lowU := mirrored.numbered u hu
  have lowV := mirrored.numbered v hv
  simp only [standIn, splitOf] at same
  split_ifs at same with splitsU splitsV splitsV
  · refine (List.idxOf_inj ?_).mp (Nat.add_left_cancel same)
    exact List.mem_filter.mpr ⟨hu, by simpa using splitsU⟩
  · omega
  · omega
  · exact same

theorem map_standIn_inj (factory : Factory) (mirrored : Mirrored g) {us vs : List Nat} (hu : us ⊆ g.nodes) (hv : vs ⊆ g.nodes)
    (same : us.map (standIn factory g) = vs.map (standIn factory g)) : us = vs := by
  induction us generalizing vs with
  | nil => exact (List.map_eq_nil_iff.mp same.symm).symm
  | cons u us ih =>
    cases vs with
    | nil => simp at same
    | cons v vs =>
      rw [List.map_cons, List.map_cons, List.cons.injEq] at same
      have head := standIn_inj mirrored (hu (by simp)) (hv (by simp)) same.1
      rw [head, ih (fun _ h => hu (by simp [h])) (fun _ h => hv (by simp [h])) same.2]

/-- The sources after the pass: the split ones were gathered at the end. -/
theorem splitSrcnodes_eq (mirrored : Mirrored g) (hv : v ∈ g.nodes) :
    splitSrcnodes factory g (splitNodes factory g) v =
      (gather (Splits factory g) g.nodes (g.node v).srcnodes).map (standIn factory g) := by
  have kept : (g.node v).srcnodes.filter (· ∉ splitNodes factory g) =
      ((g.node v).srcnodes.filter (¬ Splits factory g ·)).map (standIn factory g) := by
    have same : (g.node v).srcnodes.filter (· ∉ splitNodes factory g) =
        (g.node v).srcnodes.filter (¬ Splits factory g ·) := by
      refine List.filter_congr fun u hu => ?_
      simp [splitNodes, mirrored.src v hv hu]
    have fixed : ∀ u ∈ (g.node v).srcnodes.filter (¬ Splits factory g ·), standIn factory g u = id u := fun u hu =>
      if_neg (by simpa using (List.mem_filter.mp hu).2)
    rw [same, List.map_congr_left fixed, List.map_id]
  rw [splitSrcnodes, gather, List.map_append, ← kept, List.map_flatMap]
  congr 1
  refine List.flatMap_congr fun u hu => ?_
  rw [List.map_replicate, standIn, if_pos (by simpa using (List.mem_filter.mp hu).2)]

/-- An original node of a layer with one destination layer feeds at most one node. -/
def OneDst (factory : Factory) (g g' : NetGraph) : Prop :=
  ∀ u ∈ g.nodes, (factory (g.node u).proto.type).dstLayerConnection = .kOneToOne →
    (g'.node u).dstnodes.length ≤ 1

theorem Passed.oneDst (h : Passed factory g (splitNodes factory g) g') : OneDst factory g g' := by
  intro u hu single
  rw [h.old u hu]
  show (if u ∈ splitNodes factory g then _ else _ : List Nat).length ≤ 1
  split_ifs with split
  · exact le_rfl
  · by_contra several
    exact split (List.mem_filter.mpr ⟨hu, decide_eq_true ⟨not_le.mp several, single⟩⟩)

theorem Passed.splitNodeOf (mirrored : Mirrored g) (h : Passed factory g (splitNodes factory g) g')
    (hu : u ∈ g.nodes) (splits : Splits factory g u) : SplitNodeOf g g' u (splitOf factory g u) := by
  have mem : u ∈ splitNodes factory g := List.mem_filter.mpr ⟨hu, by simpa using splits⟩
  obtain ⟨n, atU, name, type, src, dst⟩ := h.new u mem
  refine ⟨h.nodes u mem, fun listed => ?_, by rw [atU, name], by rw [atU, type], ?_, by rw [atU, src],
    by rw [atU, dst]⟩
  · have := mirrored.numbered _ listed
    rw [splitOf] at this
    omega
  · rw [h.old u hu, if_pos mem]

theorem Passed.inPlace_iff (mirrored : Mirrored g) (unique : UniqueNames g)
    (h : Passed factory g (splitNodes factory g) g') :
    InPlace factory g g' ↔ ∀ v ∈ g.nodes, InOrder (Splits factory g) g.nodes (g.node v).srcnodes := by
  have srcs (v : Nat) (hv : v ∈ g.nodes) : (g'.node v).srcnodes =
      (gather (Splits factory g) g.nodes (g.node v).srcnodes).map (standIn factory g) := by
    rw [h.old v hv]
    exact splitSrcnodes_eq mirrored hv
  have known (v : Nat) (hv : v ∈ g.nodes) : ∀ u ∈ (g.node v).srcnodes, Splits factory g u → u ∈ g.nodes :=
    fun u hu _ => mirrored.src v hv hu
  constructor
  · rintro ⟨split, isSplit, inPlace⟩ v hv
    -- the only destination of a split node tells which node `split` is
    have same (u : Nat) (hu : u ∈ (g.node v).srcnodes) :
        (if Splits factory g u then split u else u) = standIn factory g u := by
      rw [standIn]
      split_ifs with splits
      · have hu := mirrored.src v hv hu
        have into := (isSplit u hu splits).into.symm.trans (h.splitNodeOf mirrored hu splits).into
        simpa using into
      · rfl
    rw [← gather_eq_iff unique.nodup (known v hv)]
    apply map_standIn_inj factory mirrored (gather_subset (mirrored.src v hv)) (mirrored.src v hv)
    rw [← srcs v hv, inPlace v hv]
    exact List.map_congr_left same
  · intro ordered
    refine ⟨splitOf factory g, fun u hu splits => h.splitNodeOf mirrored hu splits, fun v hv => ?_⟩
    rw [srcs v hv, (gather_eq_iff unique.nodup (known v hv)).mpr (ordered v hv)]
    rfl

/-- **The Split pass leaves every kOneToOne node at most one destination, and keeps the sources of
every node in place exactly if the split ones are the last ones there, in the order of the pass.** -/
theorem splitPass_inPlace_iff (factory : Factory) (g : NetGraph) (mirrored : Mirrored g) (unique : UniqueNames g) :
    ∃ g', splitPass factory g.nodes g = .ok g' ∧ OneDst factory g g' ∧
      (InPlace factory g g' ↔ ∀ v ∈ g.nodes, InOrder (Splits factory g) g.nodes (g.node v).srcnodes) := by
  obtain ⟨g', run, passed⟩ := splitPass_passed factory mirrored unique
  exact ⟨g', run, passed.oneDst, passed.inPlace_iff mirrored unique⟩

/-- A graph of unpartitioned layers. -/
def plainGraph (layers : List (String × LayerType)) (edges : List (Nat × Nat)) : NetGraph :=
  Graph.addEdges (addNodes Graph.empty (layers.map fun (name, type) =>
    { name, origin := name, partitionId := 0, proto := { name, type } })).1 edges

/-- `ip` is read by a loss, as the last of its sources, and written out. -/
def forkGraph : NetGraph :=
  plainGraph [("data", .kShardData), ("label", .kLabel), ("ip", .kInnerProduct), ("loss", .kSoftmaxLoss),
    ("out", .kOutput)] [(0, 1), (0, 2), (1, 3), (2, 3), (2, 4)]

theorem splitPass_inPlace_fork : Mirrored forkGraph ∧ UniqueNames forkGraph ∧ Splits registeredLayers forkGraph 2 ∧
    ∃ g', splitPass registeredLayers forkGraph.nodes forkGraph = .ok g' ∧
      OneDst registeredLayers forkGraph g' ∧ InPlace registeredLayers forkGraph g' := by
  have mirrored : Mirrored forkGraph := ⟨by decide, by decide, by decide, by decide⟩
  have unique : UniqueNames forkGraph := by
    rw [UniqueNames]
    decide
  obtain ⟨g', run, single, iff⟩ := splitPass_inPlace_iff registeredLayers forkGraph mirrored unique
  exact ⟨mirrored, unique, by decide, g', run, single, iff.mpr (by decide)⟩

/-- A loss that reads the logits `ip` first and the labels second; `ip` is also written out. -/
def lossGraph : NetGraph :=
  plainGraph [("data", .kShardData), ("label", .kLabel), ("ip", .kInnerProduct), ("loss", .kSoftmaxLoss),
    ("out", .kOutput)] [(0, 1), (0, 2), (2, 3), (1, 3), (2, 4)]

theorem lossGraph_mirrored : Mirrored lossGraph := by
  refine ⟨by decide, by decide, by decide, by decide⟩

theorem lossGraph_uniqueNames : UniqueNames lossGraph := by
  rw [UniqueNames]
  decide

/-- In `lossGraph` the labels come first after the pass, and the Split node of `ip` second. -/
theorem lossGraph_not_inPlace :
    Mirrored lossGraph ∧ UniqueNames lossGraph ∧ (lossGraph.node 3).srcnodes = [2, 1] ∧
      ∃ g', splitPass registeredLayers lossGraph.nodes lossGraph = .ok g' ∧ (g'.node 3).srcnodes = [1, 5] ∧
        SplitNodeOf lossGraph g' 2 5 ∧ ¬ InPlace registeredLayers lossGraph g' := by
  obtain ⟨g', run, passed⟩ := splitPass_passed registeredLayers lossGraph_mirrored lossGraph_uniqueNames
  refine ⟨lossGraph_mirrored, lossGraph_uniqueNames, by decide, g', run, ?_, ?_, fun inPlace => ?_⟩
  · rw [passed.old 3 (by decide)]
    decide
  · exact passed.splitNodeOf lossGraph_mirrored (by decide) (by decide)
  · have ordered := (passed.inPlace_iff lossGraph_mirrored lossGraph_uniqueNames).mp inPlace 3 (by decide)
    exact absurd ordered (by decide)

end Singa.NeuralNet
