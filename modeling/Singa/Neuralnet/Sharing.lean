import Singa.Neuralnet.Owners

/-!
# Params with `share_from`

Which entry of `name2param` stands for the partitions of a layer, and when the
loops of `CreateNetFromGraph` leave every param with an owner that owns itself.
-/

namespace Singa.NeuralNet
set_option autoImplicit false

variable {g : NetGraph} {n : Nat} {layers : List LayerConf} {shape : Nat → Nat → List Nat} {base : Nat}
  {iterate : List String → List String} {b : Builder} {params : Nat → NetParam} {net : Net}

/-! ## Names and sharing of the configuration -/

/-- A name is that of one param of one layer. -/
def DistinctParams (layers : List LayerConf) : Prop :=
  ∀ a ∈ layers, ∀ c ∈ layers, hasParams a.proto.type = true → hasParams c.proto.type = true → ∀ k < 2, ∀ j < 2,
    paramName layers a.proto.name k = paramName layers c.proto.name j → a = c ∧ k = j

instance (layers : List LayerConf) : Decidable (DistinctParams layers) :=
  inferInstanceAs (Decidable (∀ a ∈ layers, ∀ c ∈ layers, hasParams a.proto.type = true → _))

/-- The `k`-th param of the layer `a` shares from the `j`-th of `c`. -/
structure Shares (layers : List LayerConf) (a : LayerConf) (k : Nat) (c : LayerConf) (j : Nat) : Prop where
  sharer : a ∈ layers ∧ hasParams a.proto.type = true ∧ k < 2
  source : c ∈ layers ∧ hasParams c.proto.type = true ∧ j < 2
  share : shareName layers a.proto.name k ≠ ""
  name : shareName layers a.proto.name k = paramName layers c.proto.name j

/-- `share_from` has no cycles. -/
def Acyclic (layers : List LayerConf) : Prop :=
  ∃ rank : String → Nat, ∀ a k c j, Shares layers a k c j →
    rank (paramName layers c.proto.name j) < rank (paramName layers a.proto.name k)

/-- The names of the params, in the order of the setup loop. -/
def paramNames (layers : List LayerConf) (g : NetGraph) : List String :=
  (g.nodes.flatMap fun v =>
    if ParamNode g v then [paramName layers (g.node v).proto.name 0, paramName layers (g.node v).proto.name 1]
    else []).dedup

/-- The last node with params of the layer `name`. -/
def lastNode (g : NetGraph) (name : String) : Option Nat :=
  g.nodes.reverse.find? fun v => ParamNode g v ∧ (g.node v).proto.name = name

/-! ## The entries of `name2param` -/

theorem enterParams_last {pre post : List Nat} {id : Nat} {m : String → Option Nat} {name : String}
    (here : (params id).name = name) (later : ∀ c ∈ post, (params c).name ≠ name) :
    enterParams params (pre ++ id :: post) m name = some id := by
  have split : enterParams params (pre ++ id :: post) m = enterParams params (id :: post) (enterParams params pre m) :=
    List.foldl_append ..
  rw [split, enterParams_cons, enterParams_other _ later, here, Function.update_self]

namespace Built

variable (h : Built n layers shape base g b)

include h

/-- The names before the loops. -/
theorem keys_eq : (((layersOf g b).flatMap NetLayer.params).map fun id => (b.params id).name).dedup =
    paramNames layers g := by
  rw [paramNames, layersOf_params, List.map_flatMap]
  refine congrArg List.dedup (List.flatMap_congr fun v hv => ?_)
  by_cases has : ParamNode g v
  · rw [if_pos has, h.paramsOf_param hv has, List.map_cons, List.map_cons, List.map_nil]
    have first := h.setUp.params v hv has 0 (by omega)
    have second := h.setUp.params v hv has 1 (by omega)
    rw [Nat.add_zero] at first
    rw [first, second]
    rfl
  · rw [if_neg has, h.paramsOf_plain has]
    rfl

/-- The layer of a param with a given name. -/
theorem conf_of_name (distinct : DistinctParams layers) {conf : LayerConf} (mem : conf ∈ layers)
    (type : hasParams conf.proto.type = true) {w j k : Nat} (hw : w ∈ g.nodes) (has : ParamNode g w) (hj : j < 2)
    (hk : k < 2) (same : paramName layers (g.node w).proto.name j = paramName layers conf.proto.name k) :
    (∃ i, NodeOf n conf.proto i (g.node w)) ∧ j = k := by
  obtain ⟨conf', mem', i, of⟩ := h.laid.paramNode hw has
  rw [of.proto] at same
  rw [of.paramNode_iff] at has
  obtain ⟨rfl, rfl⟩ := distinct conf' mem' conf mem has type j hj k hk same
  exact ⟨⟨i, of⟩, rfl⟩

/-- The params that are entered last under their names: `z` is followed by no node of its layer. -/
theorem entry_last (distinct : DistinctParams layers) {conf : LayerConf} (mem : conf ∈ layers)
    (type : hasParams conf.proto.type = true) {z : Nat} (hz : z ∈ g.nodes)
    (ofZ : ∃ i, NodeOf n conf.proto i (g.node z)) (pre post : List Nat)
    (split : entered b (layersOf g b) = pre ++ [firstId g z, firstId g z + 1] ++ post)
    (later : ∀ c ∈ post, ∃ w ∈ g.nodes, ParamNode g w ∧ (¬ ∃ i, NodeOf n conf.proto i (g.node w)) ∧
      ∃ j < 2, c = firstId g w + j) {k : Nat} (hk : k < 2) :
    name2param b (layersOf g b) (paramName layers conf.proto.name k) = some (firstId g z + k) := by
  have has : ParamNode g z := by
    obtain ⟨i, of⟩ := ofZ
    exact of.paramNode_iff.mpr type
  have nameZ : (g.node z).proto.name = conf.proto.name := by
    obtain ⟨i, of⟩ := ofZ
    rw [of.proto]
  have own (j : Nat) (hj : j < 2) : (b.params (firstId g z + j)).name = paramName layers conf.proto.name j := by
    rw [h.setUp.params z hz has j hj, ← nameZ]
    rfl
  have others : ∀ c ∈ post, (b.params c).name ≠ paramName layers conf.proto.name k := by
    intro c hc same
    obtain ⟨w, hw, hasW, not, j, hj, rfl⟩ := later c hc
    rw [h.setUp.params w hw hasW j hj] at same
    exact not (h.conf_of_name distinct mem type hw hasW hj hk same).1
  rw [name2param_eq, split]
  obtain rfl | rfl : k = 0 ∨ k = 1 := by omega
  · rw [List.append_assoc]
    refine enterParams_last (own 0 (by omega)) fun c hc => ?_
    rcases List.mem_cons.mp hc with rfl | hc
    · rw [own 1 (by omega)]
      intro same
      have apart := (distinct conf mem conf mem type type 1 (by omega) 0 (by omega) same).2
      omega
    · exact others c hc
  · have split' : pre ++ [firstId g z, firstId g z + 1] ++ post = (pre ++ [firstId g z]) ++ (firstId g z + 1) :: post := by
      simp
    rw [split']
    exact enterParams_last (own 1 (by omega)) others

/-- The entries that a group of replicas makes are the params of its first one. -/
theorem mem_group_paramsOf {origin : String} {c : Nat} (hc : c ∈ (b.shareParamLayers origin).head?.elim [] b.paramsOf) :
    ∃ w ∈ groupOf g g.nodes origin, w ∈ g.nodes ∧ ParamNode g w ∧ ∃ j < 2, c = firstId g w + j := by
  rw [h.setUp.groups] at hc
  cases first : (groupOf g g.nodes origin).head? with
  | none => simp [first] at hc
  | some w =>
    rw [first] at hc
    have memW := List.mem_of_head? first
    exact ⟨w, memW, group_mem memW, (h.mem_paramsOf (group_mem memW)).mp hc⟩

end Built

/-- The node whose params are the entries of a layer, and what the loop over the groups makes of them. -/
structure Entry (n : Nat) (layers : List LayerConf) (g : NetGraph) (b : Builder) (params : Nat → NetParam)
    (net : Net) (conf : LayerConf) (z : Nat) : Prop where
  mem : z ∈ g.nodes
  node : ∃ i, NodeOf n conf.proto i (g.node z)
  last : conf.proto.partitionDim ≠ 0 → lastNode g conf.proto.name = some z
  entry : ∀ k < 2, name2param b (layersOf g b) (paramName layers conf.proto.name k) = some (firstId g z + k)
  kept : ∀ k < 2, net.params (firstId g z + k) = params (firstId g z + k)
  replicas : conf.proto.partitionDim = 0 → ∀ w ∈ g.nodes, (∃ i, NodeOf n conf.proto i (g.node w)) → ∀ k < 2,
    (net.params (firstId g w + k)).owner = (params (firstId g z + k)).owner ∧
      (net.params (firstId g w + k)).data = (params (firstId g z + k)).data

namespace Created

variable (h : Created iterate n layers shape base g b params net)

include h

/-- The entries of a layer on dimension 0 are the params of its first replica. -/
theorem entry_replicated (distinct : DistinctParams layers) {conf : LayerConf} (mem : conf ∈ layers)
    (type : hasParams conf.proto.type = true) (dim : conf.proto.partitionDim = 0) {u : Nat} (hu : u ∈ g.nodes)
    (ofU : ∃ i, NodeOf n conf.proto i (g.node u)) : ∃ z, Entry n layers g b params net conf z := by
  obtain ⟨f, hf, head, ofF, kept, all⟩ := h.replicas_of mem dim type hu ofU
  have hasF : ParamNode g f := by
    obtain ⟨i, of⟩ := ofF
    exact of.paramNode_iff.mpr type
  refine ⟨f, hf, ofF, fun notDim => absurd dim notDim, fun k hk => ?_, kept, fun _ => all⟩
  have listed : conf.proto.name ∈ b.sortedOrigins := by
    refine (sortedOrigins_perm b).mem_iff.mpr ((h.built.setUp.origins _).mpr fun none => ?_)
    rw [none] at head
    cases head
  obtain ⟨before, after, split⟩ := List.append_of_mem listed
  have nodup : b.sortedOrigins.Nodup := (sortedOrigins_perm b).nodup_iff.mpr h.built.setUp.nodup
  have here : (b.shareParamLayers conf.proto.name).head?.elim [] b.paramsOf = [firstId g f, firstId g f + 1] := by
    rw [h.built.setUp.groups, head]
    exact h.built.paramsOf_param hf hasF
  refine h.built.entry_last distinct mem type hf ofF ((layersOf g b).flatMap NetLayer.params ++
    before.flatMap fun origin => (b.shareParamLayers origin).head?.elim [] b.paramsOf)
    (after.flatMap fun origin => (b.shareParamLayers origin).head?.elim [] b.paramsOf) ?_ ?_ hk
  · rw [entered, split, List.flatMap_append, List.flatMap_cons, here]
    simp
  · intro c hc
    obtain ⟨origin, ho, hc⟩ := List.mem_flatMap.mp hc
    obtain ⟨w, memW, hw, hasW, j, hj, rfl⟩ := h.built.mem_group_paramsOf hc
    refine ⟨w, hw, hasW, fun owner => ?_, j, hj, rfl⟩
    obtain ⟨i, of⟩ := owner
    rw [← h.built.origin_of_group memW hasW, of.origin] at ho
    rw [split] at nodup
    exact (List.nodup_cons.mp (List.nodup_append.mp nodup).2.1).1 ho

/-- The entries of another layer are the params of its last node. -/
theorem entry_lastNode (distinct : DistinctParams layers) {conf : LayerConf} (mem : conf ∈ layers)
    (type : hasParams conf.proto.type = true) (dim : conf.proto.partitionDim ≠ 0) {u : Nat} (hu : u ∈ g.nodes)
    (ofU : ∃ i, NodeOf n conf.proto i (g.node u)) : ∃ z, Entry n layers g b params net conf z := by
  have isParam {w : Nat} (of : ∃ i, NodeOf n conf.proto i (g.node w)) :
      ParamNode g w ∧ (g.node w).proto.name = conf.proto.name := by
    obtain ⟨i, of⟩ := of
    exact ⟨of.paramNode_iff.mpr type, by rw [of.proto]⟩
  have found : (lastNode g conf.proto.name).isSome :=
    List.find?_isSome.mpr ⟨u, List.mem_reverse.mpr hu, by simpa using isParam ofU⟩
  obtain ⟨z, last⟩ := Option.isSome_iff_exists.mp found
  obtain ⟨here, after, before, split, none⟩ := List.find?_eq_some_iff_append.mp last
  have split : g.nodes = before.reverse ++ z :: after.reverse := by
    rw [← List.reverse_reverse g.nodes, split]
    simp
  have hz : z ∈ g.nodes := by simp [split]
  have here : ParamNode g z ∧ (g.node z).proto.name = conf.proto.name := by simpa using here
  have ofZ := h.built.node_conf mem hz here.1 here.2
  have dimZ : (g.node z).proto.partitionDim ≠ 0 := by
    obtain ⟨i, of⟩ := ofZ
    rw [of.proto]
    exact dim
  refine ⟨z, hz, ofZ, fun _ => last, fun k hk => ?_, fun k hk => h.not_replica hz here.1 dimZ hk,
    fun isDim => absurd isDim dim⟩
  have ids (w : Nat) : ((b.layer w).getD ⟨default, []⟩).params = b.paramsOf w := by
    rw [Builder.paramsOf]
    cases b.layer w <;> rfl
  refine h.built.entry_last distinct mem type hz ofZ (before.reverse.flatMap b.paramsOf)
    (after.reverse.flatMap b.paramsOf ++
      b.sortedOrigins.flatMap fun origin => (b.shareParamLayers origin).head?.elim [] b.paramsOf) ?_ ?_ hk
  · rw [entered, layersOf, List.flatMap_map, split]
    simp [ids, h.built.paramsOf_param hz here.1]
  · intro c hc
    rcases List.mem_append.mp hc with hc | hc
    · obtain ⟨w, memW, hc⟩ := List.mem_flatMap.mp hc
      have hw : w ∈ g.nodes := by
        rw [split]
        exact List.mem_append_right _ (List.mem_cons_of_mem _ memW)
      obtain ⟨hasW, j, hj, rfl⟩ := (h.built.mem_paramsOf hw).mp hc
      refine ⟨w, hw, hasW, fun of => ?_, j, hj, rfl⟩
      have notHere := none w (List.mem_reverse.mp memW)
      simp [isParam of] at notHere
    · obtain ⟨origin, -, hc⟩ := List.mem_flatMap.mp hc
      obtain ⟨w, memW, hw, hasW, j, hj, rfl⟩ := h.built.mem_group_paramsOf hc
      refine ⟨w, hw, hasW, fun owner => ?_, j, hj, rfl⟩
      obtain ⟨i, of⟩ := owner
      obtain ⟨conf', memConf', rfl, dim', type'⟩ := h.built.group_conf memW hasW
      obtain ⟨-, i', of'⟩ := (h.built.mem_groupOf memConf' dim' type').mp memW
      have proto := of.proto.symm.trans of'.proto
      have dims := congrArg LayerProto.partitionDim proto
      exact dim (dims.trans dim')

theorem entry_of (positive : 1 ≤ n) (distinct : DistinctParams layers) {conf : LayerConf} (mem : conf ∈ layers)
    (type : hasParams conf.proto.type = true) : ∃ z, Entry n layers g b params net conf z := by
  obtain ⟨i, hi⟩ := layerIds_nonempty positive conf.proto
  obtain ⟨u, hu, of⟩ := h.built.laid.node conf.proto (List.mem_map_of_mem mem) i hi
  by_cases dim : conf.proto.partitionDim = 0
  · exact h.entry_replicated distinct mem type dim hu ⟨i, of⟩
  · exact h.entry_lastNode distinct mem type dim hu ⟨i, of⟩

end Created

end Singa.NeuralNet
