import Singa.Neuralnet.Net
import Singa.Neuralnet.Partitions

/-!
# The layers and params of a new net

The setup loop of `CreateNetFromGraph` numbers the params through in the order of
the nodes: the weight and the bias of the node `v` get the ids `firstId g v` and
`firstId g v + 1`. All partitions of a layer give their params the same names.
-/

namespace Singa.NeuralNet
set_option autoImplicit false

variable {g : NetGraph} {n : Nat} {layers : List LayerConf} {shape : Nat → Nat → List Nat} {base : Nat}
  {b b' : Builder}

/-- The layer of the node `v` has params. -/
def ParamNode (g : NetGraph) (v : Nat) : Prop := hasParams (g.node v).proto.type = true

instance (g : NetGraph) (v : Nat) : Decidable (ParamNode g v) := inferInstanceAs (Decidable (_ = _))

/-- The id of the weight of the node `v`. -/
def firstId (g : NetGraph) (v : Nat) : Nat := 2 * (g.nodes.filter (ParamNode g)).idxOf v

/-- The `param` field of the layer of that name. -/
def confOf (layers : List LayerConf) (name : String) : List ParamConf :=
  ((layers.find? (·.proto.name = name)).map LayerConf.param).getD []

/-- The names that the weight (`k = 0`) and the bias (`k = 1`) of a layer get. -/
def paramName (layers : List LayerConf) (name : String) (k : Nat) : String :=
  match confOf layers name with
  | weight :: bias :: _ =>
    if k = 0 then (if weight.name = "" then name ++ "$" else weight.name)
    else if bias.name = "" then name ++ (if weight.name = "" then "$" ++ "$" else "$") else bias.name
  | _ => ""

/-- The `share_from` field of a param. -/
def shareName (layers : List LayerConf) (name : String) (k : Nat) : String :=
  ((confOf layers name)[k]?.map ParamConf.shareFrom).getD ""

/-- A param as the setup loop leaves it. -/
def newParam (layers : List LayerConf) (shape : Nat → Nat → List Nat) (base : Nat) (g : NetGraph) (v k : Nat) :
    NetParam where
  name := paramName layers (g.node v).proto.name k
  shareFrom := shareName layers (g.node v).proto.name k
  id := firstId g v + k
  owner := firstId g v + k
  data := base + (firstId g v + k)
  shape := shape v k

/-! ## Nodes with params -/

theorem layerAt_spec {u : Nat} (hu : u ∈ g.nodes) :
    layerAt g u ∈ g.nodes ∧ (g.node (layerAt g u)).name = (g.node u).name := by
  have found : (g.nodes.reverse.find? fun v => (g.node v).name = (g.node u).name).isSome :=
    List.find?_isSome.mpr ⟨u, List.mem_reverse.mpr hu, by simp⟩
  obtain ⟨v, hv⟩ := Option.isSome_iff_exists.mp found
  have name := List.find?_some hv
  rw [layerAt, hv]
  exact ⟨List.mem_reverse.mp (List.mem_of_find?_eq_some hv), by simpa using name⟩

theorem layerAt_congr {u v : Nat} (hv : v ∈ g.nodes)
    (same : (g.node u).name = (g.node v).name) : layerAt g u = layerAt g v := by
  obtain ⟨w, hw⟩ : ∃ w, (g.nodes.reverse.find? fun x => (g.node x).name = (g.node v).name) = some w :=
    Option.isSome_iff_exists.mp (List.find?_isSome.mpr ⟨v, List.mem_reverse.mpr hv, by simp⟩)
  rw [layerAt, layerAt, same, hw]
  rfl

/-- A node with params is the node of a declared layer. -/
theorem Laid.paramNode (laid : Laid n (layers.map LayerConf.proto) g) {v : Nat} (hv : v ∈ g.nodes)
    (has : ParamNode g v) : ∃ conf ∈ layers, ∃ i, NodeOf n conf.proto i (g.node v) := by
  rcases laid.kinds v hv with ⟨layer, mem, of⟩ | inserted
  · obtain ⟨conf, hconf, rfl⟩ := List.mem_map.mp mem
    exact ⟨conf, hconf, of⟩
  · have type := inserted.hub.1
    rw [ParamNode] at has
    simp only [List.mem_cons, List.not_mem_nil, or_false] at type
    rcases type with type | type | type <;> rw [type] at has <;> cases has

theorem NodeOf.paramNode_iff {layer : LayerProto} {i : Int} {v : Nat} (of : NodeOf n layer i (g.node v)) :
    ParamNode g v ↔ hasParams layer.type = true := by
  rw [ParamNode, of.proto]

/-- Nodes that share the name of a node with params have params, too. -/
theorem Laid.paramNode_of_name (plain : PlainNet (layers.map LayerConf.proto))
    (laid : Laid n (layers.map LayerConf.proto) g) {u v : Nat} (hu : u ∈ g.nodes) (hv : v ∈ g.nodes)
    (has : ParamNode g v) (same : (g.node u).name = (g.node v).name) : ParamNode g u := by
  obtain ⟨conf, mem, i, of⟩ := laid.paramNode hv has
  have memConf := List.mem_map_of_mem (f := LayerConf.proto) mem
  rcases laid.kinds u hu with ⟨layer, mem', j, of'⟩ | inserted
  · have layers := nodeNames_disjoint plain mem' memConf of'.name (same ▸ of.name)
    rw [of.paramNode_iff] at has
    rw [ParamNode, of'.proto, layers]
    exact has
  · obtain ⟨c, mark, hc⟩ := inserted.name
    rw [same] at hc
    exact absurd mark (nodeNames_chars (plain.plain _ memConf) of.name c hc)

/-! ## One pass of the setup loop -/

theorem addParams_groups (base : Nat) (name : String) : ∀ (paramName : String) (l : List (ParamConf × List Nat)) (b : Builder),
    (addParams base name paramName l b).1.shareParamLayers = b.shareParamLayers ∧
      (addParams base name paramName l b).1.origins = b.origins ∧
      (addParams base name paramName l b).1.layer = b.layer
  | _, [], _ => ⟨rfl, rfl, rfl⟩
  | _, (_, _) :: rest, _ => addParams_groups base name _ rest _

/-- A pass adds params of the configured shapes and enters the layer. -/
theorem setupNode_added {u : Nat} (h : setupNode layers shape base g b u = .ok b') :
    ∃ confs l, layerParams layers (g.node (layerAt g u)).proto.type (g.node u).proto = .ok confs ∧
      l.length = confs.length ∧ (∀ e ∈ l, ∃ k, e.2 = shape u k) ∧
      ∀ a ids, addParams base (g.node u).proto.name "$" l b = (a, ids) →
        b' = if (g.node u).proto.partitionDim = 0
          then { a with layer := Function.update a.layer (layerAt g u) (some ⟨(g.node u).proto, ids⟩) }.shareLayer
            (g.node u).origin (layerAt g u)
          else { a with layer := Function.update a.layer (layerAt g u) (some ⟨(g.node u).proto, ids⟩) } := by
  obtain ⟨confs, read, pass⟩ := Run.do_ok.mp h
  refine ⟨confs, confs.zipIdx.map fun e => (e.1, shape u e.2), read, by simp, fun e mem => ?_, fun a ids added => ?_⟩
  · obtain ⟨c, -, rfl⟩ := List.mem_map.mp mem
    exact ⟨c.2, rfl⟩
  · cases pass
    rw [show addParams base (g.node u).proto.name "$" _ b = (a, ids) from added]

/-- The layer of a node and the groups after its setup. -/
theorem setupNode_frame {u : Nat} (h : setupNode layers shape base g b u = .ok b') :
    (∃ layer, b'.layer = Function.update b.layer (layerAt g u) (some layer)) ∧
      (∀ name, b'.shareParamLayers name = b.shareParamLayers name ++
        if (g.node u).proto.partitionDim = 0 ∧ (g.node u).origin = name then [layerAt g u] else []) ∧
      b'.origins = if (g.node u).proto.partitionDim = 0 ∧ (g.node u).origin ∉ b.origins
        then b.origins ++ [(g.node u).origin] else b.origins := by
  obtain ⟨confs, l, -, -, -, added⟩ := setupNode_added h
  obtain ⟨groups, origins, layer⟩ := addParams_groups base (g.node u).proto.name "$" l b
  rw [added _ _ rfl]
  by_cases dim : (g.node u).proto.partitionDim = 0
  · simp only [dim, if_true, true_and]
    refine ⟨⟨_, by rw [Builder.shareLayer, layer]⟩, fun name => ?_, ?_⟩
    · simp only [Builder.shareLayer, groups]
      by_cases here : (g.node u).origin = name
      · rw [here, Function.update_self, if_pos rfl]
      · rw [Function.update_of_ne (Ne.symm here), if_neg here, List.append_nil]
    · simp only [Builder.shareLayer, origins, ite_not]
  · simp only [dim, if_false, false_and]
    exact ⟨⟨_, by rw [layer]⟩, fun name => by rw [groups, List.append_nil], origins⟩

/-- The setup of a node with params. -/
theorem setupNode_param {u : Nat} (own : layerAt g u = u) (has : ParamNode g u) (count : b.paramid = firstId g u)
    (h : setupNode layers shape base g b u = .ok b') :
    b'.layer = Function.update b.layer u (some ⟨(g.node u).proto, [firstId g u, firstId g u + 1]⟩) ∧
      b'.params = Function.update (Function.update b.params (firstId g u) (newParam layers shape base g u 0))
        (firstId g u + 1) (newParam layers shape base g u 1) ∧
      b'.paramid = b.paramid + 2 := by
  obtain ⟨confs, read, pass⟩ := Run.do_ok.mp h
  rw [own, layerParams, if_pos (show hasParams _ = true from has)] at read
  split at read
  · rename_i weight bias rest conf
    cases read
    have first : newParam layers shape base g u 0 = ⟨if weight.name = "" then (g.node u).proto.name ++ "$" else weight.name,
        weight.shareFrom, b.paramid, b.paramid, base + b.paramid, shape u 0, {}⟩ := by
      simp [newParam, paramName, shareName, confOf, conf, count]
    have second : newParam layers shape base g u 1 = ⟨if bias.name = "" then
          (g.node u).proto.name ++ (if weight.name = "" then "$" ++ "$" else "$") else bias.name,
        bias.shareFrom, b.paramid + 1, b.paramid + 1, base + (b.paramid + 1), shape u 1, {}⟩ := by
      simp [newParam, paramName, shareName, confOf, conf, count]
    rw [first, second, ← count]
    simp only [own] at pass
    by_cases dim : (g.node u).proto.partitionDim = 0
    · rw [if_pos dim] at pass
      cases pass
      exact ⟨rfl, rfl, rfl⟩
    · rw [if_neg dim] at pass
      cases pass
      exact ⟨rfl, rfl, rfl⟩
  · cases read

/-- The setup of a node without params. -/
theorem setupNode_plain {u : Nat} (plain : ¬ ParamNode g (layerAt g u))
    (h : setupNode layers shape base g b u = .ok b') :
    b'.layer = Function.update b.layer (layerAt g u) (some ⟨(g.node u).proto, []⟩) ∧ b'.params = b.params ∧
      b'.paramid = b.paramid := by
  obtain ⟨confs, read, pass⟩ := Run.do_ok.mp h
  rw [layerParams, if_neg (show ¬ hasParams _ = true from plain)] at read
  cases read
  by_cases dim : (g.node u).proto.partitionDim = 0
  · simp only [dim, if_true] at pass
    cases pass
    exact ⟨rfl, rfl, rfl⟩
  · simp only [dim, if_false] at pass
    cases pass
    exact ⟨rfl, rfl, rfl⟩

/-! ## The setup loop -/

/-- The ids of the params are apart. -/
theorem firstId_inj {u v j k : Nat} (hu : u ∈ g.nodes) (has : ParamNode g u) (hv : v ∈ g.nodes)
    (hj : j < 2) (hk : k < 2) (same : firstId g u + j = firstId g v + k) : u = v ∧ j = k := by
  have index : (g.nodes.filter (ParamNode g)).idxOf u = (g.nodes.filter (ParamNode g)).idxOf v := by
    unfold firstId at same
    omega
  have mem : u ∈ g.nodes.filter (ParamNode g) := List.mem_filter.mpr ⟨hu, by simpa using has⟩
  obtain rfl := (List.idxOf_inj mem).mp index
  exact ⟨rfl, by omega⟩

theorem firstId_of_split (nodup : g.nodes.Nodup) {done rest : List Nat} {u : Nat} (split : g.nodes = done ++ u :: rest)
    (has : ParamNode g u) : firstId g u = 2 * (done.filter (ParamNode g)).length := by
  have fresh : u ∉ done.filter (ParamNode g) := fun mem => by
    rw [split] at nodup
    exact (List.nodup_append.mp nodup).2.2 u (List.mem_filter.mp mem).1 u List.mem_cons_self rfl
  rw [firstId, split, List.filter_append, List.filter_cons_of_pos (by simpa using has), List.idxOf_append_of_notMem fresh,
    List.idxOf_cons_self, Nat.add_zero]

/-- The layers of the group `name` among the given nodes. -/
def groupOf (g : NetGraph) (nodes : List Nat) (name : String) : List Nat :=
  (nodes.filter fun u => (g.node u).proto.partitionDim = 0 ∧ (g.node u).origin = name).map (layerAt g)

/-- The variables of the setup loop after the nodes `done`. -/
structure SetUp (layers : List LayerConf) (shape : Nat → Nat → List Nat) (base : Nat) (g : NetGraph)
    (done : List Nat) (b : Builder) : Prop where
  paramid : b.paramid = 2 * (done.filter (ParamNode g)).length
  layer : ∀ v ∈ done, ParamNode g v → b.layer v = some ⟨(g.node v).proto, [firstId g v, firstId g v + 1]⟩
  plain : ∀ v, ¬ ParamNode g v → ∀ layer, b.layer v = some layer → layer.params = []
  params : ∀ v ∈ done, ParamNode g v → ∀ k < 2, b.params (firstId g v + k) = newParam layers shape base g v k
  groups : ∀ name, b.shareParamLayers name = groupOf g done name
  nodup : b.origins.Nodup
  origins : ∀ name, name ∈ b.origins ↔ groupOf g done name ≠ []

theorem groupOf_append (g : NetGraph) (done : List Nat) (u : Nat) (name : String) :
    groupOf g (done ++ [u]) name = groupOf g done name ++
      if (g.node u).proto.partitionDim = 0 ∧ (g.node u).origin = name then [layerAt g u] else [] := by
  simp only [groupOf, List.filter_append, List.map_append, List.filter_cons, List.filter_nil]
  by_cases here : (g.node u).proto.partitionDim = 0 ∧ (g.node u).origin = name
  · simp [here]
  · simp [here]

/-- The groups after one more node. -/
theorem SetUp.pass_groups {done : List Nat} {u : Nat} (inv : SetUp layers shape base g done b)
    (h : setupNode layers shape base g b u = .ok b') :
    (∀ name, b'.shareParamLayers name = groupOf g (done ++ [u]) name) ∧ b'.origins.Nodup ∧
      ∀ name, name ∈ b'.origins ↔ groupOf g (done ++ [u]) name ≠ [] := by
  obtain ⟨-, groups, origins⟩ := setupNode_frame h
  refine ⟨fun name => by rw [groups, inv.groups, groupOf_append], ?_, fun name => ?_⟩
  · rw [origins]
    split
    · rename_i new
      exact List.nodup_append.mpr ⟨inv.nodup, List.nodup_singleton _, fun a ha c hc same => by
        rw [List.mem_singleton.mp hc] at same
        exact new.2 (same ▸ ha)⟩
    · exact inv.nodup
  · rw [origins, groupOf_append]
    by_cases dim : (g.node u).proto.partitionDim = 0
    · by_cases here : (g.node u).origin = name
      · by_cases old : (g.node u).origin ∈ b.origins
        · simp [dim, here, here ▸ old]
        · rw [here] at old
          simp [dim, here, old]
      · by_cases old : (g.node u).origin ∈ b.origins
        · simpa [dim, old, here] using inv.origins name
        · simpa [dim, old, here, Ne.symm here] using inv.origins name
    · simpa [dim] using inv.origins name

/-- One pass of the setup loop, when the nodes with params have names of their own. -/
theorem SetUp.pass (plain : PlainNet (layers.map LayerConf.proto)) (laid : Laid n (layers.map LayerConf.proto) g)
    (own : ∀ v ∈ g.nodes, ParamNode g v → layerAt g v = v) {done rest : List Nat} {u : Nat}
    (split : g.nodes = done ++ u :: rest) (inv : SetUp layers shape base g done b)
    (h : setupNode layers shape base g b u = .ok b') : SetUp layers shape base g (done ++ [u]) b' := by
  have hu : u ∈ g.nodes := by simp [split]
  have below {v : Nat} (hv : v ∈ done) : v ∈ g.nodes := by simp [split, hv]
  have other {v : Nat} (hv : v ∈ done) : v ≠ u := by
    rintro rfl
    have nodup := laid.nodup
    rw [split] at nodup
    exact (List.nodup_append.mp nodup).2.2 v hv v List.mem_cons_self rfl
  obtain ⟨groups, nodup, origins⟩ := inv.pass_groups h
  by_cases has : ParamNode g u
  · have count := inv.paramid.trans (firstId_of_split laid.nodup split has).symm
    obtain ⟨layer, params, paramid⟩ := setupNode_param (own u hu has) has count h
    refine ⟨?_, ?_, ?_, ?_, groups, nodup, origins⟩
    · rw [paramid, inv.paramid, List.filter_append, List.length_append, List.filter_cons_of_pos (by simpa using has)]
      rfl
    · intro v hv hasV
      rcases List.mem_append.mp hv with hv | hv
      · rw [layer, Function.update_of_ne (other hv)]
        exact inv.layer v hv hasV
      · obtain rfl := List.mem_singleton.mp hv
        rw [layer, Function.update_self]
    · intro v plainV layer' at_v
      have apart : v ≠ u := fun same => plainV (same ▸ has)
      rw [layer, Function.update_of_ne apart] at at_v
      exact inv.plain v plainV layer' at_v
    · intro v hv hasV k hk
      rw [params]
      rcases List.mem_append.mp hv with hv | hv
      · have apart (j : Nat) (hj : j < 2) : firstId g v + k ≠ firstId g u + j := fun same =>
          other hv (firstId_inj (below hv) hasV hu hk hj same).1
        have first := apart 0 (by omega)
        rw [Nat.add_zero] at first
        rw [Function.update_of_ne (apart 1 (by omega)), Function.update_of_ne first]
        exact inv.params v hv hasV k hk
      · obtain rfl := List.mem_singleton.mp hv
        obtain rfl | rfl : k = 0 ∨ k = 1 := by omega
        · rw [Function.update_of_ne (by omega), Nat.add_zero, Function.update_self]
        · rw [Function.update_self]
  · have plainAt : ¬ ParamNode g (layerAt g u) := fun hasAt =>
      has (laid.paramNode_of_name plain hu (layerAt_spec hu).1 hasAt (layerAt_spec hu).2.symm)
    obtain ⟨layer, params, paramid⟩ := setupNode_plain plainAt h
    have filtered : (done ++ [u]).filter (ParamNode g) = done.filter (ParamNode g) := by
      rw [List.filter_append, List.filter_cons_of_neg (by simpa using has), List.filter_nil, List.append_nil]
    have before {v : Nat} (hv : v ∈ done ++ [u]) (hasV : ParamNode g v) : v ∈ done := by
      rcases List.mem_append.mp hv with hv | hv
      · exact hv
      · exact absurd (List.mem_singleton.mp hv ▸ hasV) has
    refine ⟨?_, ?_, ?_, ?_, groups, nodup, origins⟩
    · rw [paramid, inv.paramid, filtered]
    · intro v hv hasV
      have apart : v ≠ layerAt g u := fun same => plainAt (same ▸ hasV)
      rw [layer, Function.update_of_ne apart]
      exact inv.layer v (before hv hasV) hasV
    · intro v plainV layer' at_v
      rw [layer] at at_v
      by_cases same : v = layerAt g u
      · rw [same, Function.update_self] at at_v
        cases at_v
        rfl
      · rw [Function.update_of_ne same] at at_v
        exact inv.plain v plainV layer' at_v
    · intro v hv hasV k hk
      rw [params]
      exact inv.params v (before hv hasV) hasV k hk

/-- Every layer that was set up has the name of a node. -/
theorem setup_layerAt {nodes : List Nat} (h : nodes.foldlM (setupNode layers shape base g) Builder.empty = .ok b)
    {v : Nat} (some : (b.layer v).isSome) : ∃ u ∈ nodes, layerAt g u = v := by
  have all := Run.foldlM_inv (fun done (b : Builder) => ∀ v, (b.layer v).isSome → ∃ u ∈ done, layerAt g u = v)
    (fun done u s s' inv pass v some => ?_) (by simp [Builder.empty]) h
  · exact all v some
  · obtain ⟨⟨layer, update⟩, -⟩ := setupNode_frame pass
    by_cases here : layerAt g u = v
    · exact ⟨u, by simp, here⟩
    · rw [update, Function.update_of_ne (Ne.symm here)] at some
      obtain ⟨w, hw, at_v⟩ := inv v some
      exact ⟨w, by simp [hw], at_v⟩

/-- `layers_` after the setup loop. -/
def layersOf (g : NetGraph) (b : Builder) : List NetLayer := g.nodes.map fun v => (b.layer v).getD ⟨default, []⟩

/-- `layers_` after an ended run: the layers with params are all set up. -/
theorem builtLayers_ok {built : List NetLayer} (h : builtLayers g b = .ok built) :
    built = layersOf g b ∧
      ∀ v ∈ g.nodes, ParamNode g v → (b.layer v).isSome := by
  obtain ⟨map, each⟩ := Run.mapM_ok h
  refine ⟨map _ fun v _ layer here => ?_, fun v hv has => ?_⟩
  · cases found : b.layer v with
    | some own =>
      simp only [found] at here
      cases here
      rfl
    | none =>
      simp only [found] at here
      split at here
      · cases here
      · cases here
        rfl
  · obtain ⟨layer, here⟩ := each v hv
    cases found : b.layer v with
    | some own => rfl
    | none =>
      simp only [found, if_pos (show hasParams _ = true from has)] at here
      cases here

/-- The nodes with params have names of their own. -/
theorem layerAt_own {built : List NetLayer}
    (run : g.nodes.foldlM (setupNode layers shape base g) Builder.empty = .ok b) (h : builtLayers g b = .ok built)
    {v : Nat} (hv : v ∈ g.nodes) (has : ParamNode g v) : layerAt g v = v := by
  obtain ⟨u, hu, at_v⟩ := setup_layerAt run ((builtLayers_ok h).2 v hv has)
  have name := (layerAt_spec hu).2
  rw [at_v] at name
  exact (layerAt_congr hu name).trans at_v

/-- The setup loop of a run that returned a net. -/
theorem setup (plain : PlainNet (layers.map LayerConf.proto)) (laid : Laid n (layers.map LayerConf.proto) g)
    {built : List NetLayer} (run : g.nodes.foldlM (setupNode layers shape base g) Builder.empty = .ok b)
    (h : builtLayers g b = .ok built) : SetUp layers shape base g g.nodes b := by
  refine Run.foldlM_inv_split (SetUp layers shape base g) (fun done u rest s s' split inv pass =>
    inv.pass plain laid (fun v hv has => layerAt_own run h hv has) split pass) ?_ run
  exact ⟨rfl, by simp, by simp [Builder.empty], by simp, fun _ => rfl, List.nodup_nil, by simp [Builder.empty, groupOf]⟩

/-! ## Layers and groups of a net -/

/-- What the loops after the setup work on. -/
structure Built (n : Nat) (layers : List LayerConf) (shape : Nat → Nat → List Nat) (base : Nat) (g : NetGraph)
    (b : Builder) : Prop where
  plain : PlainNet (layers.map LayerConf.proto)
  laid : Laid n (layers.map LayerConf.proto) g
  own : ∀ v ∈ g.nodes, ParamNode g v → layerAt g v = v
  setUp : SetUp layers shape base g g.nodes b

namespace Built

variable (h : Built n layers shape base g b)

include h

theorem paramsOf_param {v : Nat} (hv : v ∈ g.nodes) (has : ParamNode g v) :
    b.paramsOf v = [firstId g v, firstId g v + 1] := by
  rw [Builder.paramsOf, h.setUp.layer v hv has]
  rfl

theorem paramsOf_plain {v : Nat} (plain : ¬ ParamNode g v) : b.paramsOf v = [] := by
  rw [Builder.paramsOf]
  cases at_v : b.layer v with
  | none => rfl
  | some layer => exact h.setUp.plain v plain layer at_v

/-- The ids of the params of a layer. -/
theorem mem_paramsOf {v id : Nat} (hv : v ∈ g.nodes) :
    id ∈ b.paramsOf v ↔ ParamNode g v ∧ ∃ k < 2, id = firstId g v + k := by
  by_cases has : ParamNode g v
  · rw [h.paramsOf_param hv has]
    simp only [List.mem_cons, List.not_mem_nil, or_false, has, true_and]
    constructor
    · rintro (rfl | rfl)
      · exact ⟨0, by omega, rfl⟩
      · exact ⟨1, by omega, rfl⟩
    · rintro ⟨k, hk, rfl⟩
      omega
  · rw [h.paramsOf_plain has]
    simp [has]

/-- A node that shares the layer of a node with params is that node. -/
theorem eq_of_layerAt {u v : Nat} (hu : u ∈ g.nodes) (has : ParamNode g v) (at_v : layerAt g u = v) : u = v := by
  have spec := layerAt_spec hu
  rw [at_v] at spec
  exact (h.own u hu (h.laid.paramNode_of_name h.plain hu spec.1 has spec.2.symm)).symm.trans at_v

/-- The nodes of a layer that has params. -/
theorem nodeOf_iff {conf : LayerConf} (mem : conf ∈ layers) (dim : conf.proto.partitionDim = 0) {v : Nat}
    (hv : v ∈ g.nodes) :
    ((g.node v).proto.partitionDim = 0 ∧ (g.node v).origin = conf.proto.name) ↔
      ∃ i, NodeOf n conf.proto i (g.node v) := by
  constructor
  · rintro ⟨dimV, origin⟩
    rcases h.laid.kinds v hv with ⟨layer, mem', i, of⟩ | inserted
    · have same := h.plain.eq mem' (List.mem_map_of_mem mem) (of.origin.symm.trans origin)
      exact ⟨i, same ▸ of⟩
    · have noDim := inserted.hub.2
      omega
  · rintro ⟨i, of⟩
    rw [of.proto]
    exact ⟨dim, of.origin⟩

/-- The group of a layer on dimension 0 with params: its nodes. -/
theorem groupOf_eq {conf : LayerConf} (mem : conf ∈ layers) (dim : conf.proto.partitionDim = 0)
    (has : hasParams conf.proto.type = true) :
    groupOf g g.nodes conf.proto.name =
      g.nodes.filter fun u => (g.node u).proto.partitionDim = 0 ∧ (g.node u).origin = conf.proto.name := by
  rw [groupOf]
  refine (List.map_congr_left fun u hu => ?_).trans (List.map_id _)
  obtain ⟨hu, here⟩ := List.mem_filter.mp hu
  obtain ⟨i, of⟩ := (h.nodeOf_iff mem dim hu).mp (by simpa using here)
  refine h.own u hu ?_
  exact of.paramNode_iff.mpr has

theorem mem_groupOf {conf : LayerConf} (mem : conf ∈ layers) (dim : conf.proto.partitionDim = 0)
    (has : hasParams conf.proto.type = true) {v : Nat} :
    v ∈ groupOf g g.nodes conf.proto.name ↔ v ∈ g.nodes ∧ ∃ i, NodeOf n conf.proto i (g.node v) := by
  rw [h.groupOf_eq mem dim has, List.mem_filter]
  constructor
  · rintro ⟨hv, here⟩
    exact ⟨hv, (h.nodeOf_iff mem dim hv).mp (by simpa using here)⟩
  · rintro ⟨hv, of⟩
    exact ⟨hv, by simpa using (h.nodeOf_iff mem dim hv).mpr of⟩

/-- A group with a node that has params is the group of a layer. -/
theorem group_conf {name : String} {v : Nat} (hv : v ∈ groupOf g g.nodes name) (has : ParamNode g v) :
    ∃ conf ∈ layers, conf.proto.name = name ∧ conf.proto.partitionDim = 0 ∧ hasParams conf.proto.type = true := by
  obtain ⟨u, hu, at_v⟩ := List.mem_map.mp hv
  obtain ⟨hu, here⟩ := List.mem_filter.mp hu
  obtain rfl := h.eq_of_layerAt hu has at_v
  obtain ⟨conf, mem, i, of⟩ := h.laid.paramNode hu has
  have here : (g.node u).proto.partitionDim = 0 ∧ (g.node u).origin = name := by simpa using here
  rw [of.proto, of.origin] at here
  rw [of.paramNode_iff] at has
  exact ⟨conf, mem, here.2, here.1, has⟩

end Built

/-- The setup loop and `layers_` of a run that returned a net. -/
theorem built_of_ok (plain : PlainNet (layers.map LayerConf.proto)) (laid : Laid n (layers.map LayerConf.proto) g)
    {built : List NetLayer} (run : g.nodes.foldlM (setupNode layers shape base g) Builder.empty = .ok b)
    (h : builtLayers g b = .ok built) :
    Built n layers shape base g b ∧ built = layersOf g b :=
  ⟨⟨plain, laid, fun _ hv has => layerAt_own run h hv has, setup plain laid run h⟩, (builtLayers_ok h).1⟩

end Singa.NeuralNet
