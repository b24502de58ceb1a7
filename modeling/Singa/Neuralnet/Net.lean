import Mathlib.Data.List.Sort
import Singa.Neuralnet.CreateGraph

/-!
# `neuralnet/neuralnet.cc`: nets and their parameters

`NeuralNet::Create` keeps the layers of a phase, makes the graph and turns its
nodes into layers. A `Param` is known by its id; its data blob, which others may
share, is an address. What a layer's `Setup` makes of the shapes of its sources
is the parameter `shape`; the order in which `std::unordered_map` is iterated is
the parameter `iterate`.
-/

namespace Singa
set_option autoImplicit false

inductive Phase where
  | kTrain | kValidation | kTest | kPositive | kNegative | kForward | kBackward | kLoss
  deriving DecidableEq, Repr

/-- The fields of `ParamProto` that tell which values a param shares. -/
structure ParamConf where
  name : String := ""
  shareFrom : String := ""
  deriving DecidableEq, Repr

/-- A `LayerProto` of the net configuration, with the fields that its nodes do not need. -/
structure LayerConf where
  proto : LayerProto
  hasPartitionDim : Bool := true
  exclude : List Phase := []
  param : List ParamConf := []
  deriving DecidableEq, Repr

structure NetProto where
  layer : List LayerConf
  partitionDim : Int := 0
  deriving DecidableEq, Repr

/-- The slice tables and pending flags of a `Param`. -/
structure SliceTable where
  sliceStart : Nat := 0
  numSlices : Nat := 0
  sliceOffset : List Nat := []
  sliceSize : List Nat := []
  pendingGet : List Bool := []
  pendingPut : List Bool := []
  pendingUpdate : List Bool := []
  deriving DecidableEq, Repr

/-- A `Param` of a net: `data` is the address of its data blob, `shape` the shape of that blob. -/
structure NetParam where
  name : String := ""
  shareFrom : String := ""
  id : Nat := 0
  owner : Nat := 0
  data : Nat := 0
  shape : List Nat := []
  slices : SliceTable := {}
  deriving DecidableEq, Repr, Inhabited

/-- `Param::ShareFrom`: what `p` becomes. `std::equal` compares as many dimensions as `p` has. -/
def NetParam.share (p other : NetParam) : Run NetParam :=
  if p.shape <+: other.shape then
    .ok { p with owner := other.owner, data := other.data, shape := other.shape, slices := other.slices }
  else .error .shareShape

/-- A `Layer` after `Setup`, with the ids of its params. -/
structure NetLayer where
  proto : LayerProto
  params : List Nat
  deriving DecidableEq, Repr

/-- A `NeuralNet`: `layers_` and the params by id. -/
structure Net where
  layers : List NetLayer
  params : Nat → NetParam

namespace NeuralNet

/-! ## `Create` -/

/-- The layers of a phase, with the partition dimension of the net where they have none. -/
def included (conf : NetProto) (phase : Phase) : List LayerConf :=
  (conf.layer.filter (phase ∉ ·.exclude)).map fun layer =>
    if layer.hasPartitionDim then layer
    else { layer with proto := { layer.proto with partitionDim := conf.partitionDim } }

/-- Param names are not repeated, and every `share_from` is the name of a param. -/
def checkParams (layers : List LayerConf) : Run Unit := do
  let params := layers.flatMap (·.param)
  let names ← params.foldlM (fun names p =>
    if p.name = "" then .ok names
    else if p.name ∈ names then .error .paramName
    else .ok (names ++ [p.name])) []
  (params.filter (·.shareFrom ≠ "")).foldlM (fun _ p =>
    if p.shareFrom ∈ names then .ok () else .error .shareConf) ()

/-! ## `CreateNetFromGraph` -/

/-- The types whose `GetParams` is not empty; it is `{weight_, bias_}` for each of them. -/
def hasParams (type : LayerType) : Bool :=
  type = .kConvolution ∨ type = .kInnerProduct ∨ type = .kRBMVis ∨ type = .kRBMHid

/-- `proto.param(0)` and `proto.param(1)`, as the `Setup` of a layer of type `type` reads them. -/
def layerParams (layers : List LayerConf) (type : LayerType) (proto : LayerProto) : Run (List ParamConf) :=
  if hasParams type then
    match ((layers.find? (·.proto.name = proto.name)).map LayerConf.param).getD [] with
    | weight :: bias :: _ => .ok [weight, bias]
    | _ => .error .range
  else .ok []

/-- The variables of the setup loop; `layer` holds the `Layer` objects by the number of their node. -/
structure Builder where
  layer : Nat → Option NetLayer
  params : Nat → NetParam
  paramid : Nat
  shareParamLayers : String → List Nat
  /-- The keys of `share_param_layers`. -/
  origins : List String

def Builder.empty : Builder := ⟨fun _ => none, fun _ => default, 0, fun _ => [], []⟩

/-- `name2layer_[node->name]` while the net is made: the layer of the last node of that name. -/
def layerAt (g : NetGraph) (u : Nat) : Nat :=
  (g.nodes.reverse.find? fun v => (g.node v).name = (g.node u).name).getD u

/-- The loop over `GetParams`: ids, and names for the params that have none. The data blob of a
param is the fresh one at `base` plus its id. -/
def addParams (base : Nat) (layerName : String) : String → List (ParamConf × List Nat) → Builder →
    Builder × List Nat
  | _, [], b => (b, [])
  | paramName, (conf, shape) :: rest, b =>
    let id := b.paramid
    let p : NetParam := {
      name := if conf.name = "" then layerName ++ paramName else conf.name
      shareFrom := conf.shareFrom
      id, owner := id, data := base + id, shape }
    let b := { b with params := Function.update b.params id p, paramid := id + 1 }
    let (b, ids) := addParams base layerName (if conf.name = "" then paramName ++ "$" else paramName) rest b
    (b, id :: ids)

/-- `share_param_layers[origin].push_back(layer)`. -/
def Builder.shareLayer (b : Builder) (origin : String) (v : Nat) : Builder :=
  { b with
    shareParamLayers := Function.update b.shareParamLayers origin (b.shareParamLayers origin ++ [v])
    origins := if origin ∈ b.origins then b.origins else b.origins ++ [origin] }

/-- One pass of the setup loop. -/
def setupNode (layers : List LayerConf) (shape : Nat → Nat → List Nat) (base : Nat) (g : NetGraph)
    (b : Builder) (u : Nat) : Run Builder := do
  let v := layerAt g u
  let proto := (g.node u).proto
  let confs ← layerParams layers (g.node v).proto.type proto
  let (b, ids) := addParams base proto.name "$" (confs.zipIdx.map fun (conf, k) => (conf, shape u k)) b
  let b := { b with layer := Function.update b.layer v (some ⟨proto, ids⟩) }
  .ok (if proto.partitionDim = 0 then b.shareLayer (g.node u).origin v else b)

/-- `layers_`. A layer that was never set up has no params, or null pointers for them. -/
def builtLayers (g : NetGraph) (b : Builder) : Run (List NetLayer) :=
  g.nodes.mapM fun v =>
    match b.layer v with
    | some layer => .ok layer
    | none => if hasParams (g.node v).proto.type then .error .range else .ok ⟨default, []⟩

/-- The ids of the params of a `Layer` object. -/
def Builder.paramsOf (b : Builder) (v : Nat) : List Nat := ((b.layer v).map NetLayer.params).getD []

/-- The order in which `std::map` is iterated. -/
def Builder.sortedOrigins (b : Builder) : List String := b.origins.insertionSort (· ≤ ·)

/-- `for (param : params) name2param[param->name()] = param`. -/
def enterParams (params : Nat → NetParam) (ids : List Nat) (name2param : String → Option Nat) :
    String → Option Nat :=
  ids.foldl (fun m id => Function.update m (params id).name (some id)) name2param

/-- `name2param`: the params of all layers, then those of the first replica of each layer on dimension 0. -/
def name2param (b : Builder) (layers : List NetLayer) : String → Option Nat :=
  b.sortedOrigins.foldl (fun m origin => enterParams b.params ((b.shareParamLayers origin).head?.elim [] b.paramsOf) m)
    (enterParams b.params (layers.flatMap NetLayer.params) fun _ => none)

/-- `params[p]->ShareFrom(*params[q])`. -/
def shareParam (params : Nat → NetParam) (p q : Nat) : Run (Nat → NetParam) := do
  let p' ← (params p).share (params q)
  .ok (Function.update params p p')

/-- One pass of the loop over `name2param`. -/
def shareEntry (name2param : String → Option Nat) (params : Nat → NetParam) (name : String) :
    Run (Nat → NetParam) :=
  match name2param name with
  | none => .ok params
  | some p =>
    if (params p).shareFrom ≠ "" then
      match name2param (params p).shareFrom with
      | some q => shareParam params p q
      | none => .error .shareName
    else .ok params

/-- The params of a replica share from those of the first one. -/
def shareReplica (ownerParams ids : List Nat) (params : Nat → NetParam) : Run (Nat → NetParam) :=
  if ids.length = ownerParams.length then
    (ids.zip ownerParams).foldlM (fun params e => shareParam params e.1 e.2) params
  else .error .paramCount

/-- One pass of the loop over `share_param_layers`. -/
def shareReplicas (b : Builder) (params : Nat → NetParam) (origin : String) : Run (Nat → NetParam) :=
  match b.shareParamLayers origin with
  | [] => .ok params
  | owner :: replicas => replicas.foldlM (fun params v => shareReplica (b.paramsOf owner) (b.paramsOf v) params) params

/-- `NeuralNet::CreateNetFromGraph`. -/
def createNetFromGraph (iterate : List String → List String) (layers : List LayerConf)
    (shape : Nat → Nat → List Nat) (base : Nat) (g : NetGraph) : Run Net := do
  let b ← g.nodes.foldlM (setupNode layers shape base g) Builder.empty
  let built ← builtLayers g b
  let byName := name2param b built
  let names := ((built.flatMap NetLayer.params).map fun id => (b.params id).name).dedup
  let params ← (iterate names).foldlM (shareEntry byName) b.params
  let params ← b.sortedOrigins.foldlM (shareReplicas b) params
  .ok ⟨built, params⟩

/-- `NeuralNet::Create`. -/
def create (fuel : Nat) (factory : Factory) (iterate : List String → List String)
    (shape : Nat → Nat → List Nat) (base : Nat) (conf : NetProto) (phase : Phase) (npartitions : Nat) :
    Run Net := do
  let layers := included conf phase
  checkParams layers
  let g ← createGraph fuel factory (layers.map LayerConf.proto) npartitions
  createNetFromGraph iterate layers shape base g

/-! ## `PrepareDataStructures` and `ShareParamsFrom` -/

/-- `name2layer` after `PrepareDataStructures`: the last layer of that name. -/
def name2layer (net : Net) (name : String) : Option NetLayer :=
  net.layers.reverse.find? (·.proto.name = name)

/-- `params[i]->ShareFrom(*otherparams[i])` for all params of a layer. -/
def shareLayerFrom (other : Net) (ids otherIds : List Nat) (params : Nat → NetParam) : Run (Nat → NetParam) :=
  if ids.length = otherIds.length then
    (ids.zip otherIds).foldlM (fun params e => do
      let p ← (params e.1).share (other.params e.2)
      .ok (Function.update params e.1 p)) params
  else .error .paramCount

/-- `NeuralNet::ShareParamsFrom`. -/
def shareParamsFrom (net other : Net) : Run Net := do
  let params ← net.layers.foldlM (fun params layer =>
    match name2layer other layer.proto.name with
    | some otherlayer => shareLayerFrom other layer.params otherlayer.params params
    | none => .ok params) net.params
  .ok { net with params }

end NeuralNet
end Singa
