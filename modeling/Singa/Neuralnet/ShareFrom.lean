import Singa.Neuralnet.Sharing

/-!
# When sharing resolves

The owner of every param owns itself exactly when `name2param` is iterated so
that a param that shares comes before those that share from it, no layer split
on dimension 1 shares, and the source of a sharer that is split on dimension 1
comes from its first partition.
-/

namespace Singa.NeuralNet
set_option autoImplicit false

variable {g : NetGraph} {n : Nat} {layers : List LayerConf} {shape : Nat → Nat → List Nat} {base : Nat}
  {iterate : List String → List String} {b : Builder} {params : Nat → NetParam} {net : Net}

/-- `target` is in the partition of `layer`; of a layer on dimension 0, or from outside a layer on
dimension 1, it is the first partition. -/
def SamePart (layer target : LayerProto) : Prop :=
  (target.partitionDim = 0 → target.partitionId = 0) ∧
    (target.partitionDim = 1 → target.partitionId = if layer.partitionDim = 1 then layer.partitionId else 0)

/-- `q` is the owner of the param `p` of `layer`. -/
structure Resolution (net : Net) (layer : NetLayer) (p q : Nat) : Prop where
  listed : q ∈ net.layers.flatMap NetLayer.params
  id : (net.params q).id = q
  owner : (net.params p).owner = q
  root : (net.params q).owner = q
  data : (net.params p).data = (net.params q).data
  source : (net.params p).shareFrom ≠ "" → ∃ target ∈ net.layers, ∃ r ∈ target.params,
    (net.params r).name = (net.params p).shareFrom ∧ SamePart layer.proto target.proto ∧ (net.params r).owner = q

/-- Every param has an owner that owns itself. -/
def Resolved (net : Net) : Prop := ∀ layer ∈ net.layers, ∀ p ∈ layer.params, ∃ q, Resolution net layer p q

/-- Sources that share are visited before their sharers, and no partition is left out. -/
structure Resolvable (n : Nat) (layers : List LayerConf) (g : NetGraph) (order : List String) : Prop where
  order : ∀ a k c j, Shares layers a k c j → shareName layers c.proto.name j ≠ "" →
    Before order (paramName layers c.proto.name j) (paramName layers a.proto.name k)
  sharer : ∀ a k c j, Shares layers a k c j → a.proto.partitionDim = 1 → n = 1
  source : ∀ a k c j, Shares layers a k c j → c.proto.partitionDim = 1 →
    ∀ z, lastNode g c.proto.name = some z → (g.node z).proto.partitionId = 0

/-- Layers off dimension 0, with one partition, have one node. -/
theorem Laid.one_node (laid : Laid n (layers.map LayerConf.proto) g) {conf : LayerConf} (mem : conf ∈ layers)
    (dim : conf.proto.partitionDim ≠ 0) (one : conf.proto.partitionDim = 1 → n = 1) {u v : Nat} (hu : u ∈ g.nodes)
    (hv : v ∈ g.nodes) (ofU : ∃ i, NodeOf n conf.proto i (g.node u)) (ofV : ∃ i, NodeOf n conf.proto i (g.node v)) :
    u = v := by
  obtain ⟨i, ofU⟩ := ofU
  obtain ⟨j, ofV⟩ := ofV
  have same : i = j := by
    have memI := ofU.id
    have memJ := ofV.id
    by_cases split : conf.proto.partitionDim = 1
    · simp only [layerIds, split, one split, or_true, if_true, List.range_one, List.map_cons, List.map_nil,
        List.mem_singleton] at memI memJ
      rw [memI, memJ]
    · rw [layerIds, if_neg (by simp [dim, split]), List.mem_singleton] at memI memJ
      rw [memI, memJ]
  exact laid.once conf.proto (List.mem_map_of_mem mem) i u hu v hv ofU (same ▸ ofV)

/-- A param whose node has the entries, or a replica of it. -/
theorem Entry.value {a : LayerConf} {z v k : Nat} (entry : Entry n layers g b params net a z) (hv : v ∈ g.nodes)
    (of : ∃ i, NodeOf n a.proto i (g.node v)) (hk : k < 2) (of_z : a.proto.partitionDim = 0 ∨ v = z) :
    (net.params (firstId g v + k)).owner = (params (firstId g z + k)).owner ∧
      (net.params (firstId g v + k)).data = (params (firstId g z + k)).data := by
  rcases of_z with dim | rfl
  · exact entry.replicas dim v hv of k hk
  · rw [entry.kept k hk]
    exact ⟨rfl, rfl⟩

theorem order_nodup (perm : ∀ keys, (iterate keys).Perm keys) : (iterate (paramNames layers g)).Nodup :=
  (perm _).nodup_iff.mpr (List.nodup_dedup _)

namespace Created

variable (h : Created iterate n layers shape base g b params net)

include h

/-- What an entry of `name2param` is a param of. -/
theorem entry_conf {name : String} {p : Nat} (entry : name2param b (layersOf g b) name = some p) :
    ∃ conf ∈ layers, hasParams conf.proto.type = true ∧ ∃ v ∈ g.nodes, (∃ i, NodeOf n conf.proto i (g.node v)) ∧
      ∃ k < 2, p = firstId g v + k ∧ name = paramName layers conf.proto.name k ∧
        b.params p = newParam layers shape base g v k ∧
        (b.params p).shareFrom = shareName layers conf.proto.name k := by
  obtain ⟨v, hv, has, k, hk, rfl, rfl⟩ := h.built.name2param_mem entry
  obtain ⟨conf, mem, i, of⟩ := h.built.laid.paramNode hv has
  have name : (g.node v).proto.name = conf.proto.name := by rw [of.proto]
  have made := h.built.setUp.params v hv has k hk
  refine ⟨conf, mem, ?_, v, hv, ⟨i, of⟩, k, hk, rfl, by rw [name], made, ?_⟩
  · rw [of.paramNode_iff] at has
    exact has
  · rw [made, ← name]
    rfl

theorem entries : Entries (name2param b (layersOf g b)) base b.params := by
  refine ⟨fun name p entry => ?_, fun name p entry => ?_, fun name p entry => ?_⟩
  all_goals
    obtain ⟨conf, -, -, v, -, ⟨i, of⟩, k, -, rfl, rfl, made, -⟩ := h.entry_conf entry
    rw [made]
  · simp [newParam, of.proto]
  · rfl
  · rfl

/-- What an entry shares from is what the layer is configured to share from. -/
theorem entry_shareFrom {a : LayerConf} {k z : Nat} (entry : Entry n layers g b params net a z)
    (type : hasParams a.proto.type = true) (hk : k < 2) :
    (b.params (firstId g z + k)).shareFrom = shareName layers a.proto.name k := by
  obtain ⟨i, of⟩ := entry.node
  rw [h.built.setUp.params z entry.mem (of.paramNode_iff.mpr type) k hk]
  simp [newParam, of.proto]

section Order

variable (perm : ∀ keys, (iterate keys).Perm keys)

/-- The loop over `name2param`, in the order of the names. -/
theorem names_run : (iterate (paramNames layers g)).foldlM (shareEntry (name2param b (layersOf g b))) b.params =
    .ok params := by
  rw [← h.built.keys_eq]
  exact h.names

include perm

theorem entry_ordered {name : String} {p : Nat} (entry : name2param b (layersOf g b) name = some p) :
    name ∈ iterate (paramNames layers g) := by
  obtain ⟨v, hv, has, k, hk, -, rfl⟩ := h.built.name2param_mem entry
  refine (perm _).mem_iff.mpr (List.mem_dedup.mpr (List.mem_flatMap.mpr ⟨v, hv, ?_⟩))
  rw [if_pos has]
  obtain rfl | rfl : k = 0 ∨ k = 1 := by omega
  · simp
  · simp

/-- An entry that shares has its source. -/
theorem entry_shares {a : LayerConf} {k z : Nat} (mem : a ∈ layers) (entry : Entry n layers g b params net a z)
    (type : hasParams a.proto.type = true) (hk : k < 2) (share : shareName layers a.proto.name k ≠ "") :
    ∃ c j, Shares layers a k c j := by
  have at_a := entry.entry k hk
  have shareFrom := h.entry_shareFrom entry type hk
  obtain ⟨q, target, -⟩ := h.entries.shared (order_nodup perm) h.names_run (h.entry_ordered perm at_a) at_a
    (by rw [shareFrom]; exact share)
  rw [shareFrom] at target
  obtain ⟨c, memC, typeC, -, -, -, j, hj, -, name, -⟩ := h.entry_conf target
  exact ⟨c, j, ⟨mem, type, hk⟩, ⟨memC, typeC, hj⟩, share, name⟩

/-- The `share_from` of the entries descends along an acyclic configuration. -/
theorem ranked {rank : String → Nat} (acyclic : ∀ a k c j, Shares layers a k c j →
      rank (paramName layers c.proto.name j) < rank (paramName layers a.proto.name k)) :
    Ranked rank (name2param b (layersOf g b)) b.params := by
  intro name p entry share
  obtain ⟨q, target, -⟩ := h.entries.shared (order_nodup perm) h.names_run (h.entry_ordered perm entry) entry share
  obtain ⟨a, memA, typeA, -, -, -, k, hk, -, rfl, -, shareFrom⟩ := h.entry_conf entry
  obtain ⟨c, memC, typeC, -, -, -, j, hj, -, name, -⟩ := h.entry_conf target
  rw [name]
  rw [shareFrom] at share name
  exact acyclic a k c j ⟨⟨memA, typeA, hk⟩, ⟨memC, typeC, hj⟩, share, name⟩

end Order

/-! ## What the loops make of the params of a node -/

/-- The labels of the params of a node. -/
theorem labels {conf : LayerConf} {v k : Nat} (hv : v ∈ g.nodes) (has : ParamNode g v)
    (of : ∃ i, NodeOf n conf.proto i (g.node v)) (hk : k < 2) :
    (net.params (firstId g v + k)).name = paramName layers conf.proto.name k ∧
      (net.params (firstId g v + k)).shareFrom = shareName layers conf.proto.name k ∧
      (net.params (firstId g v + k)).id = firstId g v + k := by
  obtain ⟨i, of⟩ := of
  have all := (names_labels h.names).trans (h.built.replicas_ok h.replicas).2.2
  obtain ⟨name, shareFrom, id⟩ := all (firstId g v + k)
  rw [name, shareFrom, id, h.built.setUp.params v hv has k hk]
  simp [newParam, of.proto]

/-- A param of a partition that has no entries keeps its own blob. -/
theorem value_other {a : LayerConf} (mem : a ∈ layers)
    (type : hasParams a.proto.type = true) {z v k : Nat}
    (entry : Entry n layers g b params net a z) (hv : v ∈ g.nodes) (of : ∃ i, NodeOf n a.proto i (g.node v))
    (hk : k < 2) (dim : a.proto.partitionDim ≠ 0) (ne : v ≠ z) :
    net.params (firstId g v + k) = newParam layers shape base g v k ∧
      ∀ name, name2param b (layersOf g b) name ≠ some (firstId g v + k) := by
  have has : ParamNode g v := by
    obtain ⟨i, of⟩ := of
    exact of.paramNode_iff.mpr type
  have dimV : (g.node v).proto.partitionDim ≠ 0 := by
    obtain ⟨i, of⟩ := of
    rw [of.proto]
    exact dim
  have none (name : String) (at_name : name2param b (layersOf g b) name = some (firstId g v + k)) : False := by
    obtain ⟨conf, memConf, typeConf, w, hw, ofW, j, hj, id, rfl, -⟩ := h.entry_conf at_name
    obtain ⟨rfl, rfl⟩ := firstId_inj hv has hw hk hj id
    obtain ⟨i, of⟩ := of
    obtain ⟨i', ofW⟩ := ofW
    have same := h.built.plain.eq (List.mem_map_of_mem memConf) (List.mem_map_of_mem mem)
      (ofW.origin.symm.trans of.origin)
    rw [same, entry.entry k hk] at at_name
    have zero := Option.some.inj at_name
    exact ne (firstId_inj hv has entry.mem hk hk zero.symm).1
  refine ⟨?_, fun name at_name => none name at_name⟩
  rw [h.not_replica hv has dimV hk, names_keep h.names fun name _ at_name => absurd at_name (none name)]
  exact h.built.setUp.params v hv has k hk

end Created

/-- The layer of the entry under a name. -/
theorem entry_unique (h : Created iterate n layers shape base g b params net) (positive : 1 ≤ n)
    (distinct : DistinctParams layers) {name : String} {p : Nat}
    (at_name : name2param b (layersOf g b) name = some p) :
    ∃ conf ∈ layers, hasParams conf.proto.type = true ∧ ∃ z, Entry n layers g b params net conf z ∧
      ∃ k < 2, p = firstId g z + k ∧ name = paramName layers conf.proto.name k := by
  obtain ⟨conf, mem, type, -, -, -, k, hk, -, rfl, -⟩ := h.entry_conf at_name
  obtain ⟨z, entry⟩ := h.entry_of positive distinct mem type
  rw [entry.entry k hk] at at_name
  exact ⟨conf, mem, type, z, entry, k, hk, (Option.some.inj at_name).symm, rfl⟩

/-- The layers with params, by their nodes. -/
theorem mem_params (h : Created iterate n layers shape base g b params net) {v k : Nat} (hv : v ∈ g.nodes)
    (has : ParamNode g v) (hk : k < 2) : firstId g v + k ∈ [firstId g v, firstId g v + 1] ∧
      firstId g v + k ∈ net.layers.flatMap NetLayer.params := by
  have mem : firstId g v + k ∈ [firstId g v, firstId g v + 1] := by
    obtain rfl | rfl : k = 0 ∨ k = 1 := by omega
    · simp
    · simp
  exact ⟨mem, List.mem_flatMap.mpr ⟨_, h.node_layer hv has, mem⟩⟩

/-- The param that the param `k` of the node `v` shares from, in the partition that is meant. -/
theorem Resolvable.source_of (h : Created iterate n layers shape base g b params net) (positive : 1 ≤ n)
    {order : List String} (cond : Resolvable n layers g order) {a c : LayerConf} {k j z v : Nat}
    (shares : Shares layers a k c j) (entry : Entry n layers g b params net c z)
    (ofV : ∃ i, NodeOf n a.proto i (g.node v)) :
    ∃ target ∈ net.layers, ∃ r ∈ target.params, (net.params r).name = shareName layers a.proto.name k ∧
      SamePart (g.node v).proto target.proto ∧ (net.params r).owner = (params (firstId g z + j)).owner := by
  obtain ⟨memC, typeC, hj⟩ := shares.source
  rw [shares.name]
  by_cases dim : c.proto.partitionDim = 0
  · have first : (0 : Int) ∈ layerIds n c.proto := by
      rw [layerIds, if_pos (.inl dim)]
      exact List.mem_map_of_mem (List.mem_range.mpr positive)
    obtain ⟨w, hw, ofW⟩ := h.built.laid.node c.proto (List.mem_map_of_mem memC) 0 first
    have hasW := ofW.paramNode_iff.mpr typeC
    refine ⟨_, h.node_layer hw hasW, firstId g w + j, (mem_params h hw hasW hj).1, (h.labels hw hasW ⟨0, ofW⟩ hj).1,
      ?_, (entry.replicas dim w hw ⟨0, ofW⟩ j hj).1⟩
    rw [SamePart, ofW.proto]
    exact ⟨fun _ => rfl, fun one => absurd (dim.symm.trans one) (by decide)⟩
  · obtain ⟨i, ofZ⟩ := entry.node
    have hasZ := ofZ.paramNode_iff.mpr typeC
    refine ⟨_, h.node_layer entry.mem hasZ, firstId g z + j, (mem_params h entry.mem hasZ hj).1,
      (h.labels entry.mem hasZ ⟨i, ofZ⟩ hj).1, ⟨fun zero => ?_, fun one => ?_⟩, by rw [entry.kept j hj]⟩
    · rw [ofZ.proto] at zero
      exact absurd zero dim
    · have dimC : c.proto.partitionDim = 1 := by
        rw [ofZ.proto] at one
        exact one
      rw [cond.source a k c j shares dimC z (entry.last dim)]
      obtain ⟨i', ofV⟩ := ofV
      split
      · rename_i dimV
        rw [ofV.proto] at dimV ⊢
        have one := cond.sharer a k c j shares dimV
        have id := ofV.id
        rw [layerIds, if_pos (.inr dimV), one] at id
        have first : i' = 0 := by simpa using id
        exact first.symm
      · rfl

/-- The condition is enough. -/
theorem Resolvable.resolved (h : Created iterate n layers shape base g b params net) (positive : 1 ≤ n)
    (distinct : DistinctParams layers) (acyclic : Acyclic layers) (perm : ∀ keys, (iterate keys).Perm keys)
    (cond : Resolvable n layers g (iterate (paramNames layers g))) : Resolved net := by
  obtain ⟨rank, descends⟩ := acyclic
  have ordered (name : String) (p q : Nat) (at_name : name2param b (layersOf g b) name = some p)
      (share : (b.params p).shareFrom ≠ "")
      (target : name2param b (layersOf g b) (b.params p).shareFrom = some q) (chain : (b.params q).shareFrom ≠ "") :
      Before (iterate (paramNames layers g)) (b.params p).shareFrom name := by
    obtain ⟨a, memA, typeA, -, -, -, k, hk, -, rfl, -, shareFrom⟩ := h.entry_conf at_name
    obtain ⟨c, memC, typeC, -, -, -, j, hj, -, source, -, shareFromC⟩ := h.entry_conf target
    rw [source]
    rw [shareFrom] at share source
    rw [shareFromC] at chain
    exact cond.order a k c j ⟨⟨memA, typeA, hk⟩, ⟨memC, typeC, hj⟩, share, source⟩ chain
  intro layer memLayer p memP
  obtain ⟨k, param⟩ := List.mem_iff_getElem?.mp memP
  obtain ⟨v, hv, has, rfl, hk, rfl⟩ := h.layer_node memLayer param
  obtain ⟨a, memA, i, ofV⟩ := h.built.laid.paramNode hv has
  have type := ofV.paramNode_iff.mp has
  obtain ⟨z, entry⟩ := h.entry_of positive distinct memA type
  obtain ⟨-, shareFrom, id⟩ := h.labels hv has ⟨i, ofV⟩ hk
  by_cases of_z : a.proto.partitionDim = 0 ∨ v = z
  · obtain ⟨owner, data⟩ := entry.value hv ⟨i, ofV⟩ hk of_z
    obtain ⟨⟨root, r, isRoot, kept, ownerZ, dataZ⟩, sourceZ⟩ := h.entries.resolved rank (order_nodup perm) h.names_run
      (fun _ _ => h.entry_ordered perm) (h.ranked perm descends) ordered (entry.entry k hk)
    obtain ⟨c₀, memC₀, typeC₀, z₀, entry₀, j₀, hj₀, rfl, rfl⟩ := entry_unique h positive distinct isRoot
    obtain ⟨i₀, of₀⟩ := entry₀.node
    have has₀ := of₀.paramNode_iff.mpr typeC₀
    have own := h.built.setUp.params z₀ entry₀.mem has₀ j₀ hj₀
    refine ⟨firstId g z₀ + j₀, (mem_params h entry₀.mem has₀ hj₀).2, (h.labels entry₀.mem has₀ ⟨i₀, of₀⟩ hj₀).2.2, ?_,
      ?_, ?_, fun share => ?_⟩
    · rw [owner, ownerZ]
    · rw [entry₀.kept j₀ hj₀, kept, own]
      rfl
    · rw [data, dataZ, entry₀.kept j₀ hj₀, kept, own]
      rfl
    · rw [shareFrom] at share ⊢
      rw [h.entry_shareFrom entry type hk] at sourceZ
      obtain ⟨q, target, ownerQ⟩ := sourceZ share
      obtain ⟨c, j, shares⟩ := h.entry_shares perm memA entry type hk share
      obtain ⟨memC, typeC, hj⟩ := shares.source
      obtain ⟨y, entryC⟩ := h.entry_of positive distinct memC typeC
      rw [shares.name, entryC.entry j hj] at target
      obtain ⟨layer', mem', r, memR, name, part, ownerR⟩ := cond.source_of h positive shares entryC ⟨i, ofV⟩
      refine ⟨layer', mem', r, memR, name, part, ?_⟩
      rw [ownerR, Option.some.inj target, ownerQ, ownerZ]
  · -- a partition without entries: its layer does not share
    have dim : a.proto.partitionDim ≠ 0 := fun dim => of_z (.inl dim)
    have ne : v ≠ z := fun same => of_z (.inr same)
    have own := (h.value_other memA type entry hv ⟨i, ofV⟩ hk dim ne).1
    refine ⟨firstId g v + k, (mem_params h hv has hk).2, id, ?_, ?_, rfl, fun share => ?_⟩
    · rw [own]
      rfl
    · rw [own]
      rfl
    · rw [shareFrom] at share
      obtain ⟨c, j, shares⟩ := h.entry_shares perm memA entry type hk share
      exact absurd (h.built.laid.one_node memA dim (cond.sharer a k c j shares) hv entry.mem ⟨i, ofV⟩ entry.node) ne

/-- The param that a resolved param shares from. -/
theorem Resolution.target (h : Created iterate n layers shape base g b params net) (distinct : DistinctParams layers)
    {a c : LayerConf} {k j v q : Nat} (shares : Shares layers a k c j) (hv : v ∈ g.nodes)
    (ofV : ∃ i, NodeOf n a.proto i (g.node v))
    (resolution : Resolution net ⟨(g.node v).proto, [firstId g v, firstId g v + 1]⟩ (firstId g v + k) q) :
    ∃ w ∈ g.nodes, (∃ i, NodeOf n c.proto i (g.node w)) ∧ SamePart (g.node v).proto (g.node w).proto ∧
      (net.params (firstId g w + j)).owner = q := by
  obtain ⟨memA, typeA, hk⟩ := shares.sharer
  obtain ⟨memC, typeC, hj⟩ := shares.source
  obtain ⟨i, of⟩ := ofV
  have shareFrom := (h.labels hv (of.paramNode_iff.mpr typeA) ⟨i, of⟩ hk).2.1
  obtain ⟨layer, memLayer, r, memR, name, part, owner⟩ := resolution.source (by rw [shareFrom]; exact shares.share)
  obtain ⟨j', param⟩ := List.mem_iff_getElem?.mp memR
  obtain ⟨w, hw, hasW, rfl, hj', rfl⟩ := h.layer_node memLayer param
  obtain ⟨c', memC', i', ofW⟩ := h.built.laid.paramNode hw hasW
  rw [(h.labels hw hasW ⟨i', ofW⟩ hj').1, shareFrom, shares.name] at name
  obtain ⟨rfl, rfl⟩ := distinct c' memC' c memC (ofW.paramNode_iff.mp hasW) typeC j' hj' j hj name
  exact ⟨w, hw, ⟨i', ofW⟩, part, owner⟩

/-- The owner of a param whose node has the entries is that param or an entry. -/
theorem Entry.owner_of (h : Created iterate n layers shape base g b params net) {c : LayerConf} {z j : Nat}
    (entry : Entry n layers g b params net c z) (type : hasParams c.proto.type = true) (hj : j < 2) :
    ∃ name, name2param b (layersOf g b) name = some (params (firstId g z + j)).owner := by
  obtain ⟨i, of⟩ := entry.node
  rcases (h.data_owner entry.mem (of.paramNode_iff.mpr type) hj).2 with own | other
  · rw [own]
    exact ⟨_, entry.entry j hj⟩
  · exact other

section Needed

variable (h : Created iterate n layers shape base g b params net) (positive : 1 ≤ n) (distinct : DistinctParams layers)
  (resolved : Resolved net) {a c : LayerConf} {k j : Nat} (shares : Shares layers a k c j)

include h resolved

theorem Resolved.resolution {conf : LayerConf} {v : Nat} (hv : v ∈ g.nodes) (type : hasParams conf.proto.type = true)
    (of : ∃ i, NodeOf n conf.proto i (g.node v)) (hk : k < 2) :
    ∃ q, Resolution net ⟨(g.node v).proto, [firstId g v, firstId g v + 1]⟩ (firstId g v + k) q := by
  obtain ⟨i, of⟩ := of
  have has := of.paramNode_iff.mpr type
  exact resolved _ (h.node_layer hv has) _ (mem_params h hv has hk).1

include positive distinct shares

/-- Sharers on dimension 1 are not split: one of the first two partitions has no entries, and keeps its own blob. -/
theorem Resolved.unsplit (acyclic : Acyclic layers) (dim : a.proto.partitionDim = 1) : n = 1 := by
  obtain ⟨rank, descends⟩ := acyclic
  by_contra more
  obtain ⟨memA, typeA, hk⟩ := shares.sharer
  obtain ⟨memC, typeC, hj⟩ := shares.source
  obtain ⟨z, entry⟩ := h.entry_of positive distinct memA typeA
  obtain ⟨y, entryC⟩ := h.entry_of positive distinct memC typeC
  obtain ⟨v, hv, ofV, ne⟩ : ∃ v ∈ g.nodes, (∃ i, NodeOf n a.proto i (g.node v)) ∧ v ≠ z := by
    have ids (i : Nat) (hi : i < n) : (i : Int) ∈ layerIds n a.proto := by
      rw [layerIds, if_pos (.inr dim)]
      exact List.mem_map_of_mem (List.mem_range.mpr hi)
    obtain ⟨u, hu, ofU⟩ := h.built.laid.node a.proto (List.mem_map_of_mem memA) 0 (ids 0 (by omega))
    obtain ⟨w, hw, ofW⟩ := h.built.laid.node a.proto (List.mem_map_of_mem memA) 1 (ids 1 (by omega))
    by_cases first : u = z
    · refine ⟨w, hw, ⟨1, ofW⟩, fun second => ?_⟩
      rw [first] at ofU
      rw [second] at ofW
      have id := congrArg LayerProto.partitionId (ofU.proto.symm.trans ofW.proto)
      simp at id
    · exact ⟨u, hu, ⟨0, ofU⟩, first⟩
  obtain ⟨i, of⟩ := ofV
  have has := of.paramNode_iff.mpr typeA
  obtain ⟨own, none⟩ := h.value_other memA typeA entry hv ⟨i, of⟩ hk (by omega) ne
  obtain ⟨q, resolution⟩ := resolved.resolution h hv typeA ⟨i, of⟩ hk
  obtain ⟨w, hw, ofW, -, owner⟩ := resolution.target h distinct shares hv ⟨i, of⟩
  have self : firstId g v + k = q := by
    rw [← resolution.owner, own]
    rfl
  rw [← self] at owner
  by_cases of_y : c.proto.partitionDim = 0 ∨ w = y
  · rw [(entryC.value hw ofW hj of_y).1] at owner
    obtain ⟨name, at_name⟩ := entryC.owner_of h typeC hj
    rw [owner] at at_name
    exact none name at_name
  · -- the source would be the sharer itself
    have dimC : c.proto.partitionDim ≠ 0 := fun dim => of_y (.inl dim)
    rw [(h.value_other memC typeC entryC hw ofW hj dimC fun same => of_y (.inr same)).1] at owner
    have ids : firstId g w + j = firstId g v + k := owner
    obtain ⟨i', ofW⟩ := ofW
    obtain ⟨rfl, rfl⟩ := firstId_inj hw (ofW.paramNode_iff.mpr typeC) hv hj hk ids
    have same := h.built.plain.eq (List.mem_map_of_mem memA) (List.mem_map_of_mem memC) (of.origin.symm.trans ofW.origin)
    have lower := descends a j c j shares
    rw [same] at lower
    omega

/-- A source that shares is visited before its sharer: after it, the sharer's owner would have another owner. -/
theorem Resolved.before (acyclic : Acyclic layers) (perm : ∀ keys, (iterate keys).Perm keys)
    (chain : shareName layers c.proto.name j ≠ "") :
    Before (iterate (paramNames layers g)) (paramName layers c.proto.name j) (paramName layers a.proto.name k) := by
  obtain ⟨rank, descends⟩ := acyclic
  obtain ⟨memA, typeA, hk⟩ := shares.sharer
  obtain ⟨memC, typeC, hj⟩ := shares.source
  obtain ⟨z, entry⟩ := h.entry_of positive distinct memA typeA
  obtain ⟨y, entryC⟩ := h.entry_of positive distinct memC typeC
  have shareZ := h.entry_shareFrom entry typeA hk
  have at_a := entry.entry k hk
  have at_c := entryC.entry j hj
  by_contra later
  obtain ⟨q, target, -, before⟩ := h.entries.shared (order_nodup perm) h.names_run (h.entry_ordered perm at_a) at_a
    (by rw [shareZ]; exact shares.share)
  rw [shareZ, shares.name] at target before
  rw [at_c] at target
  obtain rfl := Option.some.inj target
  -- the sharer has its source as the owner, which has another one
  obtain ⟨q, resolution⟩ := resolved.resolution h entry.mem typeA entry.node hk
  have owner := resolution.owner
  rw [entry.kept k hk, (before later).1] at owner
  have root := resolution.root
  rw [← owner, entryC.kept j hj] at root
  obtain ⟨name', p', at_name, ownerC, -, lower⟩ := h.entries.owner_lower rank (order_nodup perm) h.names_run
    (fun _ _ => h.entry_ordered perm) (h.ranked perm descends) at_c
  rw [← ownerC, root] at at_name
  have name := (h.entries.name _ _ at_name).symm.trans (h.entries.name _ _ at_c)
  have below := lower (by rw [h.entry_shareFrom entryC typeC hj]; exact chain)
  rw [name] at below
  omega

/-- The source of a sharer on dimension 1 comes from its first partition. -/
theorem Resolved.firstPart (acyclic : Acyclic layers) (dim : c.proto.partitionDim = 1) {z : Nat}
    (last : lastNode g c.proto.name = some z) : (g.node z).proto.partitionId = 0 := by
  obtain ⟨memA, typeA, hk⟩ := shares.sharer
  obtain ⟨memC, typeC, hj⟩ := shares.source
  obtain ⟨y, entryC⟩ := h.entry_of positive distinct memC typeC
  obtain rfl : y = z := by
    rw [entryC.last (by omega)] at last
    exact Option.some.inj last
  by_cases one : n = 1
  · obtain ⟨i, of⟩ := entryC.node
    have id := of.id
    rw [layerIds, if_pos (.inr dim), one] at id
    have first : i = 0 := by simpa using id
    rw [of.proto]
    exact first
  · obtain ⟨x, entry⟩ := h.entry_of positive distinct memA typeA
    obtain ⟨i, ofX⟩ := entry.node
    obtain ⟨q, resolution⟩ := resolved.resolution h entry.mem typeA entry.node hk
    obtain ⟨w, hw, ofW, part, owner⟩ := resolution.target h distinct shares entry.mem entry.node
    by_cases same : w = y
    · have dimA : a.proto.partitionDim ≠ 1 := fun dimA => one (resolved.unsplit h positive distinct shares acyclic dimA)
      have dimW : (g.node w).proto.partitionDim = 1 := by
        obtain ⟨i', of⟩ := ofW
        rw [of.proto]
        exact dim
      have id := part.2 dimW
      rw [ofX.proto, if_neg dimA, same] at id
      exact id
    · obtain ⟨own, none⟩ := h.value_other memC typeC entryC hw ofW hj (by omega) same
      have self : firstId g w + j = q := by
        rw [← owner, own]
        rfl
      obtain ⟨name, at_name⟩ := entry.owner_of h typeA hk
      rw [← entry.kept k hk, resolution.owner, ← self] at at_name
      exact absurd at_name (none name)

end Needed

/-- The condition is needed. -/
theorem Resolved.resolvable (h : Created iterate n layers shape base g b params net) (positive : 1 ≤ n)
    (distinct : DistinctParams layers) (acyclic : Acyclic layers) (perm : ∀ keys, (iterate keys).Perm keys)
    (resolved : Resolved net) : Resolvable n layers g (iterate (paramNames layers g)) where
  order _ _ _ _ shares chain := resolved.before h positive distinct shares acyclic perm chain
  sharer _ _ _ _ shares dim := resolved.unsplit h positive distinct shares acyclic dim
  source _ _ _ _ shares dim _ last := resolved.firstPart h positive distinct shares acyclic dim last

/-- The owners resolve exactly under the condition on the configuration, the order of the nodes and that of
the map. -/
theorem createNetFromGraph_resolved_iff {fuel : Nat} {factory : Factory} (positive : 1 ≤ n)
    (plain : PlainNet (layers.map LayerConf.proto)) (distinct : DistinctParams layers) (acyclic : Acyclic layers)
    (perm : ∀ keys, (iterate keys).Perm keys)
    (graph : createGraph fuel factory (layers.map LayerConf.proto) n = .ok g)
    (run : createNetFromGraph iterate layers shape base g = .ok net) :
    Resolved net ↔ Resolvable n layers g (iterate (paramNames layers g)) := by
  obtain ⟨b, params, h⟩ := createNetFromGraph_ok plain (createGraph_laid plain graph) run
  exact ⟨Resolved.resolvable h positive distinct acyclic perm, Resolvable.resolved h positive distinct acyclic perm⟩

/-- A fully connected layer with named params. -/
def tiedLayer (dim : Int) (name src : String) (weight bias : ParamConf) : LayerConf where
  proto := { name, type := .kInnerProduct, srclayers := [src], partitionDim := dim }
  param := [weight, bias]

/-- Three layers; `dec` shares from `enc`, and `top` from the params called `weight` and `bias`. -/
def tiedLayers (dim : Int) (weight bias : String) : List LayerConf :=
  [{ proto := { name := "data", type := .kShardData } },
    tiedLayer dim "enc" "data" ⟨"w1", ""⟩ ⟨"b1", ""⟩, tiedLayer dim "dec" "enc" ⟨"w2", "w1"⟩ ⟨"b2", "b1"⟩,
    tiedLayer dim "top" "dec" ⟨"w3", weight⟩ ⟨"b3", bias⟩]

def tiedRank (name : String) : Nat :=
  if name ∈ ["w1", "b1"] then 0 else if name ∈ ["w2", "b2"] then 1 else 2

/-- What `Shares` says about concrete layers. -/
theorem Shares.bounded {p : LayerConf → Nat → LayerConf → Nat → Prop}
    (all : ∀ a ∈ layers, ∀ k < 2, ∀ c ∈ layers, ∀ j < 2, shareName layers a.proto.name k ≠ "" →
      shareName layers a.proto.name k = paramName layers c.proto.name j → p a k c j)
    (a : LayerConf) (k : Nat) (c : LayerConf) (j : Nat) (shares : Shares layers a k c j) : p a k c j :=
  all a shares.sharer.1 k shares.sharer.2.2 c shares.source.1 j shares.source.2.2 shares.share shares.name

/-- Without chains, every order will do. -/
theorem tied_resolved : ∃ g net, createGraph 60 registeredLayers ((tiedLayers 0 "w1" "b1").map LayerConf.proto) 2 = .ok g ∧
    createNetFromGraph List.reverse (tiedLayers 0 "w1" "b1") (fun _ _ => [2]) 0 g = .ok net ∧ Resolved net := by
  obtain ⟨net, run⟩ : ∃ net, (do
      let g ← createGraph 60 registeredLayers ((tiedLayers 0 "w1" "b1").map LayerConf.proto) 2
      createNetFromGraph List.reverse (tiedLayers 0 "w1" "b1") (fun _ _ => [2]) 0 g) = .ok net :=
    Run.exists_of_isOk (by decide +kernel)
  obtain ⟨g, graph, run⟩ := Run.do_ok.mp run
  have direct : ∀ a k c j, Shares (tiedLayers 0 "w1" "b1") a k c j →
      shareName (tiedLayers 0 "w1" "b1") c.proto.name j = "" ∧ a.proto.partitionDim ≠ 1 ∧ c.proto.partitionDim ≠ 1 :=
    Shares.bounded (by decide +kernel)
  refine ⟨g, net, graph, run, (createNetFromGraph_resolved_iff (by decide) ⟨by decide, by decide⟩ (by decide +kernel)
    ⟨tiedRank, Shares.bounded (by decide +kernel)⟩ List.reverse_perm graph run).mpr ⟨?_, ?_, ?_⟩⟩
  · exact fun a k c j shares chain => absurd (direct a k c j shares).1 chain
  · exact fun a k c j shares dim => absurd dim (direct a k c j shares).2.1
  · exact fun a k c j shares dim => absurd dim (direct a k c j shares).2.2

/-- A chain that is visited from its end: `w3` keeps `w2` as its owner, which has `w1`. -/
theorem chain_not_resolved : PlainNet ((tiedLayers (-1) "w2" "b2").map LayerConf.proto) ∧
    DistinctParams (tiedLayers (-1) "w2" "b2") ∧ Acyclic (tiedLayers (-1) "w2" "b2") ∧
    (∀ keys : List String, keys.reverse.Perm keys) ∧
    ∃ g net, createGraph 60 registeredLayers ((tiedLayers (-1) "w2" "b2").map LayerConf.proto) 1 = .ok g ∧
      createNetFromGraph List.reverse (tiedLayers (-1) "w2" "b2") (fun _ _ => [2]) 0 g = .ok net ∧ ¬ Resolved net := by
  refine ⟨⟨by decide, by decide⟩, by decide +kernel, ⟨tiedRank, Shares.bounded (by decide +kernel)⟩,
    List.reverse_perm, ?_⟩
  have all : (do
      let g ← createGraph 60 registeredLayers ((tiedLayers (-1) "w2" "b2").map LayerConf.proto) 1
      let net ← createNetFromGraph List.reverse (tiedLayers (-1) "w2" "b2") (fun _ _ => [2]) 0 g
      .ok (net.layers.map NetLayer.params, (net.params 4).owner, (net.params 2).owner)) =
      .ok ([[], [0, 1], [2, 3], [4, 5]], 2, 0) := by
    decide +kernel
  obtain ⟨g, graph, all⟩ := Run.do_ok.mp all
  obtain ⟨net, run, all⟩ := Run.do_ok.mp all
  refine ⟨g, net, graph, run, fun resolved => ?_⟩
  simp only [Except.ok.injEq, Prod.mk.injEq] at all
  obtain ⟨params, ownerTop, ownerDec⟩ := all
  obtain ⟨layer, mem, ids⟩ : ∃ layer ∈ net.layers, layer.params = [4, 5] := by
    have mem : [4, 5] ∈ net.layers.map NetLayer.params := by simp [params]
    exact List.mem_map.mp mem
  obtain ⟨q, resolution⟩ := resolved layer mem 4 (by simp [ids])
  have root := resolution.root
  rw [← resolution.owner, ownerTop, ownerDec] at root
  omega

end Singa.NeuralNet
