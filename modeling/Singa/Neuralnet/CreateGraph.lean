import Singa.Utils.Graph

/-!
# `neuralnet/neuralnet.cc`: the partitioned graph

`NeuralNet::CreateGraph` makes the nodes of every layer (one for each partition
of a layer partitioned on dimension 0 or 1), connects them through inserted
Slice, Concate and Split nodes, sorts, gives nodes with several destinations a
Split node and is meant to put a pair of bridge nodes on every edge between
partitions. `wiring` is the case analysis of the connection loop, `wire` what it
does in each case.
-/

namespace Singa
set_option autoImplicit false

inductive LayerType where
  | kBridgeSrc | kBridgeDst | kConvolution | kConcate | kShardData | kDropout | kInnerProduct | kInput
  | kLabel | kLMDBData | kLRN | kMnist | kOutput | kPooling | kPrefetch | kReLU | kRGBImage | kSoftmaxLoss
  | kSlice | kSplit | kTanh | kRBMVis | kRBMHid
  deriving DecidableEq, Repr, Inhabited

inductive ConnectionType where
  | kOneToOne | kOneToAll | kOneToMany
  deriving DecidableEq, Repr

/-- The fields of `LayerProto` that the graph is made from. -/
structure LayerProto where
  name : String
  type : LayerType
  srclayers : List String := []
  partitionDim : Int := -1
  partitionId : Int := 0
  /-- `slice_conf().slice_dim()`. -/
  sliceDim : Option Int := none
  /-- `concate_conf().concate_dim()`. -/
  concateDim : Option Int := none
  deriving DecidableEq, Repr, Inhabited

/-- What `CreateGraph` asks of a `Layer`. -/
structure Layer where
  srcNeuronConnection : ConnectionType
  dstLayerConnection : ConnectionType

/-- `Factory<Layer>::Create`. -/
abbrev Factory := LayerType → Layer

/-- The layers of `RegisterLayers`. -/
def registeredLayers : Factory
  | .kConvolution | .kInnerProduct | .kSoftmaxLoss | .kOutput => ⟨.kOneToAll, .kOneToOne⟩
  | .kShardData | .kLMDBData | .kInput | .kSlice | .kSplit => ⟨.kOneToOne, .kOneToMany⟩
  | _ => ⟨.kOneToOne, .kOneToOne⟩

abbrev NetGraph := Graph LayerProto

namespace NeuralNet

/-- `v[0]`. -/
def front (v : List Nat) : Run Nat :=
  match v with
  | [] => .error .range
  | u :: _ => .ok u

/-- A node the graph adds by itself, for the layer `proto`. -/
def insertNode (g : NetGraph) (proto : LayerProto) : NetGraph × Nat :=
  g.addNode { name := proto.name, origin := "##" ++ proto.name, partitionId := proto.partitionId, proto }

/-- `SliceNode`: a Slice layer between `srcnode` and `dstnodes`. -/
def sliceNode (g : NetGraph) (srcnode : Nat) (dstnodes : List Nat) (connectDst : Bool) :
    Run (NetGraph × Nat) := do
  let first ← front dstnodes
  let (g, node) := insertNode g {
    name := (g.node srcnode).name ++ "<", type := .kSlice
    partitionId := (g.node srcnode).proto.partitionId
    sliceDim := some (g.node first).proto.partitionDim }
  let g := g.addEdge srcnode node
  .ok (if connectDst then g.addEdges (dstnodes.map (node, ·)) else g, node)

/-- `ConcateNodes`: a Concate layer between `srcnodes` and `dstnode`. -/
def concateNodes (g : NetGraph) (srcnodes : List Nat) (dstnode : Nat) : Run (NetGraph × Nat) := do
  let first ← front srcnodes
  let (g, node) := insertNode g {
    name := ">" ++ (g.node dstnode).name, type := .kConcate
    partitionId := (g.node dstnode).proto.partitionId
    concateDim := some (g.node first).proto.partitionDim }
  let g := g.addEdge node dstnode
  .ok (g.addEdges (srcnodes.map (·, node)), node)

/-- `SplitNode`: a Split layer between `srcnode` and `dstnodes`. -/
def splitNode (g : NetGraph) (srcnode : Nat) (dstnodes : List Nat) : NetGraph × Nat :=
  let (g, node) := insertNode g {
    name := (g.node srcnode).name ++ "+", type := .kSplit
    partitionId := (g.node srcnode).proto.partitionId }
  let g := g.addEdge srcnode node
  (g.addEdges (dstnodes.map (node, ·)), node)

/-- `BridgeNodes`: a BridgeSrc and a BridgeDst layer between `srcnode` and `dstnode`. -/
def bridgeNodes (g : NetGraph) (srcnode dstnode : Nat) : NetGraph :=
  let sproto : LayerProto := {
    name := (g.node srcnode).name ++ ":-", type := .kBridgeSrc
    partitionId := (g.node srcnode).proto.partitionId }
  let dproto : LayerProto := {
    name := "-:" ++ (g.node dstnode).name, type := .kBridgeDst
    partitionId := (g.node dstnode).proto.partitionId }
  let (g, sbridge) := insertNode g sproto
  let (g, dbridge) := insertNode g dproto
  ((g.addEdge srcnode sbridge).addEdge sbridge dbridge).addEdge dbridge dstnode

/-! ## Nodes of the declared layers -/

/-- `snprintf(suffix, 4, "%02d", i)`: at most three digits are kept. -/
def suffix (i : Nat) : String :=
  let digits := Nat.toDigits 10 i
  String.ofList ((if i < 10 then '0' :: digits else digits).take 3)

/-- The node of partition `i` of `layer`. -/
def partitionNode (layer : LayerProto) (i : Nat) : Node LayerProto where
  name := layer.name ++ "@" ++ suffix i
  origin := layer.name
  partitionId := i
  proto := { layer with partitionId := i }

/-- Add the given nodes, with their numbers. -/
def addNodes (g : NetGraph) : List (Node LayerProto) → NetGraph × List Nat
  | [] => (g, [])
  | node :: rest =>
    let (g, u) := g.addNode node
    let (g, us) := addNodes g rest
    (g, u :: us)

/-- The nodes made for one layer. -/
def layerNodes (npartitions : Nat) (layer : LayerProto) : Run (List (Node LayerProto)) :=
  if layer.partitionDim = 0 ∨ layer.partitionDim = 1 then
    .ok ((List.range npartitions).map (partitionNode layer))
  else if layer.partitionDim = -1 then
    .ok [{ name := layer.name, origin := layer.name, partitionId := 0, proto := layer }]
  else .error .partitionDim

/-- The graph with `name2nodes` and `name2proto`. -/
structure Made where
  graph : NetGraph
  name2nodes : String → Option (List Nat)
  name2proto : String → Option LayerProto

def Made.empty : Made := ⟨Graph.empty, fun _ => none, fun _ => none⟩

/-- One pass of the loop that makes the nodes. -/
def Made.add (npartitions : Nat) (m : Made) (layer : LayerProto) : Run Made := do
  let made ← layerNodes npartitions layer
  let (graph, nodes) := addNodes m.graph made
  .ok { graph
        name2nodes := Function.update m.name2nodes layer.name (some nodes)
        name2proto := Function.update m.name2proto layer.name (some layer) }

def createNodes (npartitions : Nat) (net : List LayerProto) : Run Made :=
  net.foldlM (Made.add npartitions) Made.empty

/-! ## Connecting them -/

/-- The cases of the connection loop. -/
inductive Wiring where
  | slice | edge | split | concate | exchange | pairwise | none
  deriving DecidableEq, Repr

def wiring (srcPdim pdim : Int) (connection : ConnectionType) : Wiring :=
  -- no partition of src layer
  if srcPdim = -1 then
    if pdim = 0 ∨ (pdim = 1 ∧ connection = .kOneToOne) then .slice
    else if pdim = -1 then .edge
    else .split
  else if (pdim = -1 ∧ (srcPdim = 0 ∨ srcPdim = 1)) ∨
      (pdim = 1 ∧ connection = .kOneToAll ∧ srcPdim = 0) then .concate
  else if (srcPdim = 1 ∧ pdim = 0) ∨ (srcPdim = 0 ∧ pdim = 1) then .exchange
  else if (srcPdim = 0 ∧ pdim = 0) ∨ (srcPdim = 1 ∧ pdim = 1 ∧ connection = .kOneToOne) then .pairwise
  else .none

/-- `for (Node* node : nodes) ConcateNodes(graph, srcnodes, node)`. -/
def concateAll (srcnodes nodes : List Nat) (g : NetGraph) : Run NetGraph :=
  nodes.foldlM (fun g node => do
    let (g, _) ← concateNodes g srcnodes node
    .ok g) g

/-- The first loop of the exchange case: its vector `nodes` is the local one, still empty at
the first call, whose first element `SliceNode` reads. -/
def sliceAll (srcnodes : List Nat) (g : NetGraph) : Run (NetGraph × List Nat) :=
  srcnodes.foldlM (fun (g, nodes) srcnode => do
    let (g, node) ← sliceNode g srcnode nodes false
    .ok (g, nodes ++ [node])) (g, [])

/-- The body of the connection loop for the case `w`. -/
def wire (w : Wiring) (srcnodes nodes : List Nat) (g : NetGraph) : Run NetGraph :=
  match w with
  | .slice => do
    let srcnode ← front srcnodes
    let (g, _) ← sliceNode g srcnode nodes true
    .ok g
  | .edge => do
    let srcnode ← front srcnodes
    let node ← front nodes
    .ok (g.addEdge srcnode node)
  | .split => do
    let srcnode ← front srcnodes
    .ok (splitNode g srcnode nodes).1
  | .concate => concateAll srcnodes nodes g
  | .exchange => do
    let (g, nodes) ← sliceAll srcnodes g
    concateAll nodes nodes g
  | .pairwise =>
    if srcnodes.length = nodes.length then .ok (g.addEdges (srcnodes.zip nodes))
    else .error .nodeCount
  | .none => .ok g

/-- `map::at`. -/
def lookup {β : Type} (m : String → Option β) (name : String) : Run β :=
  match m name with
  | some b => .ok b
  | none => .error .missing

/-- Connect `layer` to the layer called `srcname`. -/
def connectSrc (factory : Factory) (m : Made) (layer : LayerProto) (g : NetGraph) (srcname : String) :
    Run NetGraph := do
  let nodes ← lookup m.name2nodes layer.name
  let srcnodes ← lookup m.name2nodes srcname
  let connection := (factory layer.type).srcNeuronConnection
  let src ← lookup m.name2proto srcname
  wire (wiring src.partitionDim layer.partitionDim connection) srcnodes nodes g

def connectLayer (factory : Factory) (m : Made) (g : NetGraph) (layer : LayerProto) : Run NetGraph := do
  let _ ← lookup m.name2nodes layer.name
  layer.srclayers.foldlM (connectSrc factory m layer) g

/-- The connection loop. -/
def connect (factory : Factory) (net : List LayerProto) (m : Made) : Run NetGraph :=
  net.foldlM (connectLayer factory m) m.graph

/-! ## Split and bridge nodes -/

/-- The Split pass at one node. -/
def splitDst (factory : Factory) (g : NetGraph) (node : Nat) : Run NetGraph :=
  let dstnodes := (g.node node).dstnodes
  if 1 < dstnodes.length ∧ (factory (g.node node).proto.type).dstLayerConnection = .kOneToOne then do
    let g ← dstnodes.foldlM (fun g dst => g.removeEdge node dst) g
    .ok (splitNode g node dstnodes).1
  else .ok g

def splitPass (factory : Factory) (oldnodes : List Nat) (g : NetGraph) : Run NetGraph :=
  oldnodes.foldlM (splitDst factory) g

/-- The bridge pass at one edge: both ids are read from `node`. -/
def bridgeDst (node : Nat) (pid1 : Int) (g : NetGraph) (dstnode : Nat) : Run NetGraph :=
  let pid2 := (g.node node).proto.partitionId
  if pid1 ≠ pid2 then do
    let g ← g.removeEdge node dstnode
    .ok (bridgeNodes g node dstnode)
  else .ok g

def bridgePass (oldnodes : List Nat) (g : NetGraph) : Run NetGraph :=
  oldnodes.foldlM (fun g node =>
    (g.node node).dstnodes.foldlM (bridgeDst node (g.node node).proto.partitionId) g) g

/-- `NeuralNet::CreateGraph`. -/
def createGraph (fuel : Nat) (factory : Factory) (net : List LayerProto) (npartitions : Nat) :
    Run NetGraph := do
  let m ← createNodes npartitions net
  let g ← connect factory net m
  let g ← g.sort fuel
  let oldnodes := g.nodes
  let g ← splitPass factory oldnodes g
  let g ← bridgePass oldnodes g
  g.sort fuel

end NeuralNet
end Singa
