import Singa.Neuralnet.Built

/-!
# The two sharing loops of `CreateNetFromGraph`

`name2param` holds at most one of the params of a name. The loop over it copies
owners and blobs between its entries, in the order of the map; the loop over the
groups then copies those of each first replica to the others.
-/

namespace Singa.NeuralNet
set_option autoImplicit false

variable {g : NetGraph} {n : Nat} {layers : List LayerConf} {shape : Nat → Nat → List Nat} {base : Nat}
  {b : Builder} {params params' : Nat → NetParam}

/-! ## Copying what another param shares -/

/-- `p` after it took over the owner and the blob of `other`. -/
def sharing (p other : NetParam) : NetParam :=
  { p with owner := other.owner, data := other.data, shape := other.shape, slices := other.slices }

theorem share_ok {p other p' : NetParam} (h : p.share other = .ok p') : p' = sharing p other := by
  rw [NetParam.share] at h
  split at h
  · cases h
    rfl
  · cases h

theorem shareParam_ok {p q : Nat} (h : shareParam params p q = .ok params') :
    params' = Function.update params p (sharing (params p) (params q)) := by
  obtain ⟨p', shared, pass⟩ := Run.do_ok.mp h
  cases pass
  rw [share_ok shared]

/-- A loop of copies, each target with one source, where what the sources hold does not change. -/
theorem copies_ok {src : (Nat → NetParam) → Nat → NetParam} {held : Nat → NetParam} {copies : List (Nat × Nat)}
    (known : ∀ p : Nat → NetParam, (∀ id, id ∉ copies.map Prod.fst → p id = params id) →
      ∀ e ∈ copies, src p e.2 = held e.2)
    (single : ∀ e ∈ copies, ∀ e' ∈ copies, e.1 = e'.1 → e.2 = e'.2)
    (run : copies.foldlM (fun p e => do
      let p' ← (p e.1).share (src p e.2)
      .ok (Function.update p e.1 p')) params = .ok params') :
    (∀ e ∈ copies, params' e.1 = sharing (params e.1) (held e.2)) ∧
      ∀ id, id ∉ copies.map Prod.fst → params' id = params id := by
  have all := Run.foldlM_inv_split (fun done p =>
      (∀ e ∈ done, p e.1 = sharing (params e.1) (held e.2)) ∧ ∀ id, id ∉ done.map Prod.fst → p id = params id)
    (fun done e rest p p' split inv pass => ?_) ⟨by simp, fun _ _ => rfl⟩ run
  · exact all
  · have mem : e ∈ copies := by simp [split]
    obtain ⟨new, shared, pass⟩ := Run.do_ok.mp pass
    cases pass
    have source := known p (fun id hid => inv.2 id fun hdone => hid (by
      rw [split, List.map_append]
      exact List.mem_append_left _ hdone)) e mem
    rw [source] at shared
    have value : new = sharing (params e.1) (held e.2) := by
      rw [share_ok shared]
      by_cases again : e.1 ∈ done.map Prod.fst
      · -- a second copy to the same target takes the same source
        obtain ⟨e', he', same⟩ := List.mem_map.mp again
        have from_same := single e mem e' (by simp [split, he']) same.symm
        rw [← same, inv.1 e' he', ← from_same]
        rfl
      · rw [inv.2 e.1 again]
    refine ⟨fun e' he' => ?_, fun id hid => ?_⟩
    · by_cases same : e'.1 = e.1
      · have mem' : e' ∈ copies := by
          rw [split]
          rcases List.mem_append.mp he' with he' | he'
          · exact List.mem_append_left _ he'
          · rw [List.mem_singleton.mp he']
            exact List.mem_append_right _ List.mem_cons_self
        rw [same, Function.update_self, value, single e' mem' e mem same]
      · rw [Function.update_of_ne same]
        rcases List.mem_append.mp he' with he' | he'
        · exact inv.1 e' he'
        · exact absurd (congrArg Prod.fst (List.mem_singleton.mp he')) same
    · rw [List.map_append, List.mem_append, not_or] at hid
      rw [Function.update_of_ne fun same => hid.2 (by simp [same])]
      exact inv.2 id hid.1

/-! ## `name2param` -/

theorem enterParams_cons (params : Nat → NetParam) (a : Nat) (ids : List Nat) (m : String → Option Nat) :
    enterParams params (a :: ids) m = enterParams params ids (Function.update m (params a).name (some a)) :=
  rfl

theorem enterParams_mem {ids : List Nat} {m : String → Option Nat} {name : String} {id : Nat}
    (h : enterParams params ids m name = some id) : (id ∈ ids ∧ (params id).name = name) ∨ m name = some id := by
  induction ids generalizing m with
  | nil => exact .inr h
  | cons a ids ih =>
    rw [enterParams_cons] at h
    rcases ih h with ⟨mem, here⟩ | earlier
    · exact .inl ⟨List.mem_cons_of_mem a mem, here⟩
    · by_cases here : name = (params a).name
      · rw [here, Function.update_self] at earlier
        cases earlier
        exact .inl ⟨List.mem_cons_self, here.symm⟩
      · rw [Function.update_of_ne here] at earlier
        exact .inr earlier

theorem enterParams_other {ids : List Nat} (m : String → Option Nat) {name : String}
    (none : ∀ id ∈ ids, (params id).name ≠ name) : enterParams params ids m name = m name := by
  induction ids generalizing m with
  | nil => rfl
  | cons a ids ih =>
    rw [enterParams_cons, ih _ fun id hid => none id (List.mem_cons_of_mem a hid),
      Function.update_of_ne (none a List.mem_cons_self).symm]

/-- The params that the loops over `layers_` and over `share_param_layers` enter into `name2param`. -/
def entered (b : Builder) (built : List NetLayer) : List Nat :=
  built.flatMap NetLayer.params ++
    b.sortedOrigins.flatMap fun origin => (b.shareParamLayers origin).head?.elim [] b.paramsOf

theorem name2param_eq (b : Builder) (built : List NetLayer) :
    name2param b built = enterParams b.params (entered b built) fun _ => none := by
  unfold name2param entered enterParams
  rw [List.foldl_append, List.foldl_flatMap, List.foldl_flatMap]

theorem sortedOrigins_perm (b : Builder) : b.sortedOrigins.Perm b.origins := List.perm_insertionSort _ _

theorem layersOf_params (g : NetGraph) (b : Builder) :
    (layersOf g b).flatMap NetLayer.params = g.nodes.flatMap b.paramsOf := by
  rw [layersOf, List.flatMap_map]
  refine List.flatMap_congr fun v _ => ?_
  rw [Builder.paramsOf]
  cases b.layer v <;> rfl

/-- The layers of a group are layers of nodes. -/
theorem group_mem {name : String} {v : Nat} (hv : v ∈ groupOf g g.nodes name) : v ∈ g.nodes := by
  obtain ⟨u, hu, rfl⟩ := List.mem_map.mp hv
  exact (layerAt_spec (List.mem_filter.mp hu).1).1

namespace Built

variable (h : Built n layers shape base g b)

include h

/-- The params of `layers_`. -/
theorem mem_layers {id : Nat} :
    id ∈ (layersOf g b).flatMap NetLayer.params ↔
      ∃ v ∈ g.nodes, ParamNode g v ∧ ∃ k < 2, id = firstId g v + k := by
  rw [layersOf_params, List.mem_flatMap]
  exact exists_congr fun v => and_congr_right fun hv => h.mem_paramsOf hv

/-- Only params of nodes are entered. -/
theorem entered_mem {id : Nat}
    (mem : id ∈ entered b (layersOf g b)) :
    ∃ v ∈ g.nodes, ParamNode g v ∧ ∃ k < 2, id = firstId g v + k := by
  rcases List.mem_append.mp mem with mem | mem
  · exact h.mem_layers.mp mem
  · obtain ⟨origin, -, mem⟩ := List.mem_flatMap.mp mem
    rw [h.setUp.groups] at mem
    cases first : (groupOf g g.nodes origin).head? with
    | none => simp [first] at mem
    | some v =>
      rw [first] at mem
      have hv := group_mem (List.mem_of_head? first)
      exact ⟨v, hv, (h.mem_paramsOf hv).mp mem⟩

/-- What an entry of `name2param` is. -/
theorem name2param_mem {name : String} {id : Nat}
    (found : name2param b (layersOf g b) name = some id) :
    ∃ v ∈ g.nodes, ParamNode g v ∧ ∃ k < 2, id = firstId g v + k ∧
      name = paramName layers (g.node v).proto.name k := by
  rw [name2param_eq] at found
  rcases enterParams_mem found with ⟨mem, here⟩ | none
  · obtain ⟨v, hv, has, k, hk, rfl⟩ := h.entered_mem mem
    rw [h.setUp.params v hv has k hk] at here
    exact ⟨v, hv, has, k, hk, rfl, here.symm⟩
  · cases none

end Built

/-! ## The loop over `name2param` -/

section Names

variable {m : String → Option Nat} {name : String} {names : List String}

/-- One pass of the loop. -/
theorem shareEntry_ok (h : shareEntry m params name = .ok params') :
    params' = params ∨ ∃ p q, m name = some p ∧ (params p).shareFrom ≠ "" ∧ m (params p).shareFrom = some q ∧
      params' = Function.update params p (sharing (params p) (params q)) := by
  rw [shareEntry] at h
  split at h
  · cases h
    exact .inl rfl
  · rename_i p entry
    split at h
    · rename_i share
      split at h
      · rename_i q target
        exact .inr ⟨p, q, entry, share, target, shareParam_ok h⟩
      · cases h
    · cases h
      exact .inl rfl

/-- The loops change neither names nor ids. -/
def SameLabels (params params' : Nat → NetParam) : Prop :=
  ∀ id, (params' id).name = (params id).name ∧ (params' id).shareFrom = (params id).shareFrom ∧
    (params' id).id = (params id).id

theorem SameLabels.refl (params : Nat → NetParam) : SameLabels params params := fun _ => ⟨rfl, rfl, rfl⟩

theorem SameLabels.trans {params'' : Nat → NetParam} (h : SameLabels params params') (h' : SameLabels params' params'') :
    SameLabels params params'' := fun id =>
  ⟨(h' id).1.trans (h id).1, (h' id).2.1.trans (h id).2.1, (h' id).2.2.trans (h id).2.2⟩

theorem SameLabels.update (params : Nat → NetParam) (p : Nat) (other : NetParam) :
    SameLabels params (Function.update params p (sharing (params p) other)) := by
  intro id
  by_cases here : id = p
  · rw [here, Function.update_self]
    exact ⟨rfl, rfl, rfl⟩
  · rw [Function.update_of_ne here]
    exact ⟨rfl, rfl, rfl⟩

theorem names_labels (run : names.foldlM (shareEntry m) params = .ok params') : SameLabels params params' := by
  refine Run.foldlM_inv (fun _ p => SameLabels params p) (fun done name p p' inv pass => ?_) (.refl params) run
  rcases shareEntry_ok pass with rfl | ⟨i, j, -, -, -, rfl⟩
  · exact inv
  · exact inv.trans (.update p i (p j))

/-- Only entries that share change. -/
theorem names_keep (run : names.foldlM (shareEntry m) params = .ok params') {id : Nat}
    (other : ∀ name ∈ names, m name = some id → (params id).shareFrom = "") : params' id = params id := by
  refine Run.foldlM_inv_split (fun _ p => p id = params id) (fun done name rest p p' split inv pass => ?_) rfl run
  rcases shareEntry_ok pass with rfl | ⟨i, j, entry, share, -, rfl⟩
  · exact inv
  · by_cases here : id = i
    · rw [← here, inv] at share
      exact absurd (other name (by simp [split]) (here ▸ entry)) share
    · rw [Function.update_of_ne here]
      exact inv

/-- A param holds its own blob, or that of an entry; the blob tells which. -/
def Owned (m : String → Option Nat) (base : Nat) (params : Nat → NetParam) (id : Nat) : Prop :=
  (params id).data = base + (params id).owner ∧
    ((params id).owner = id ∨ ∃ name, m name = some (params id).owner)

theorem names_owned (run : names.foldlM (shareEntry m) params = .ok params')
    (entries : ∀ name id, m name = some id → Owned m base params id) {id : Nat} (start : Owned m base params id) :
    Owned m base params' id := by
  have all := Run.foldlM_inv
    (fun _ p => (∀ name id, m name = some id → Owned m base p id) ∧ Owned m base p id)
    (fun done name p p' inv pass => ?_) ⟨entries, start⟩ run
  · exact all.2
  · rcases shareEntry_ok pass with rfl | ⟨i, j, -, -, target, rfl⟩
    · exact inv
    · have kept (id : Nat) (owned : Owned m base p id) :
          Owned m base (Function.update p i (sharing (p i) (p j))) id := by
        by_cases here : id = i
        · rw [here, Owned, Function.update_self]
          obtain ⟨data, owner⟩ := inv.1 _ j target
          refine ⟨data, .inr ?_⟩
          rcases owner with owner | owner
          · exact ⟨_, target.trans (congrArg some owner.symm)⟩
          · exact owner
        · rw [Owned, Function.update_of_ne here]
          exact owned
      exact ⟨fun name id entry => kept id (inv.1 name id entry), kept id inv.2⟩

end Names

/-! ## The loop over the groups -/

/-- The copies from the first replica of a group. -/
def replicaCopies (b : Builder) (origin : String) : List (Nat × Nat) :=
  (b.shareParamLayers origin).tail.flatMap fun v =>
    (b.paramsOf v).zip (((b.shareParamLayers origin).head?.map b.paramsOf).getD [])

theorem shareReplicas_ok {origin : String} (h : shareReplicas b params origin = .ok params') :
    (replicaCopies b origin).foldlM (fun p e => shareParam p e.1 e.2) params = .ok params' := by
  rw [shareReplicas] at h
  rw [replicaCopies]
  split at h
  · rename_i none
    rw [none]
    exact h
  · rename_i owner replicas group
    rw [group]
    refine Run.foldlM_flatMap_ok (fun p v p' pass => ?_) h
    rw [shareReplica] at pass
    split at pass
    · exact pass
    · cases pass

namespace Built

variable (h : Built n layers shape base g b)

include h

theorem origin_of_group {name : String} {v : Nat} (hv : v ∈ groupOf g g.nodes name) (has : ParamNode g v) :
    (g.node v).origin = name := by
  obtain ⟨conf, mem, rfl, dim, type⟩ := h.group_conf hv has
  obtain ⟨-, i, of⟩ := (h.mem_groupOf mem dim type).mp hv
  exact of.origin

/-- The first replica is none of the others. -/
theorem group_front {name : String} {v f : Nat} {rest : List Nat} (group : groupOf g g.nodes name = f :: rest)
    (hv : v ∈ rest) (has : ParamNode g v) : v ≠ f ∧ ParamNode g f := by
  have mem : v ∈ groupOf g g.nodes name := by simp [group, hv]
  obtain ⟨conf, memConf, rfl, dim, type⟩ := h.group_conf mem has
  have nodup : (groupOf g g.nodes conf.proto.name).Nodup := by
    rw [h.groupOf_eq memConf dim type]
    exact h.laid.nodup.filter _
  rw [group, List.nodup_cons] at nodup
  obtain ⟨-, i, of⟩ := (h.mem_groupOf memConf dim type).mp (group ▸ List.mem_cons_self)
  refine ⟨fun same => nodup.1 (same ▸ hv), ?_⟩
  exact of.paramNode_iff.mpr type

/-- Every copy is from a param of the first replica to that of another one. -/
theorem mem_copies {e : Nat × Nat} :
    e ∈ b.sortedOrigins.flatMap (replicaCopies b) ↔ ∃ name f rest, groupOf g g.nodes name = f :: rest ∧
      ∃ v ∈ rest, ParamNode g v ∧ ∃ k < 2, e = (firstId g v + k, firstId g f + k) := by
  have zip {name : String} {f v : Nat} {rest : List Nat} (group : groupOf g g.nodes name = f :: rest) (hv : v ∈ rest) :
      e ∈ (b.paramsOf v).zip (b.paramsOf f) ↔
        ParamNode g v ∧ ∃ k < 2, e = (firstId g v + k, firstId g f + k) := by
    have mem : v ∈ g.nodes := group_mem (group ▸ List.mem_cons_of_mem f hv)
    by_cases has : ParamNode g v
    · have front := (h.group_front group hv has).2
      rw [h.paramsOf_param mem has, h.paramsOf_param (group_mem (group ▸ List.mem_cons_self)) front]
      simp only [List.zip_cons_cons, List.zip_nil_right, List.mem_cons, List.not_mem_nil, or_false, has, true_and]
      constructor
      · rintro (rfl | rfl)
        · exact ⟨0, by omega, rfl⟩
        · exact ⟨1, by omega, rfl⟩
      · rintro ⟨k, hk, rfl⟩
        obtain rfl | rfl : k = 0 ∨ k = 1 := by omega
        · exact .inl rfl
        · exact .inr rfl
    · rw [h.paramsOf_plain has]
      simp [has]
  simp only [List.mem_flatMap, replicaCopies, h.setUp.groups]
  constructor
  · rintro ⟨name, -, v, hv, mem⟩
    cases group : groupOf g g.nodes name with
    | nil => simp [group] at hv
    | cons f rest =>
      rw [group] at hv mem
      exact ⟨name, f, rest, group, v, hv, (zip group hv).mp mem⟩
  · rintro ⟨name, f, rest, group, v, hv, copy⟩
    refine ⟨name, ?_, v, ?_, ?_⟩
    · exact (sortedOrigins_perm b).mem_iff.mpr ((h.setUp.origins name).mpr (by simp [group]))
    · rw [group]
      exact hv
    · rw [group]
      exact (zip group hv).mpr copy

/-- The loop over the groups. -/
theorem replicas_ok (run : b.sortedOrigins.foldlM (shareReplicas b) params = .ok params') :
    (∀ name f rest, groupOf g g.nodes name = f :: rest → ∀ v ∈ rest, ParamNode g v → ∀ k < 2,
      params' (firstId g v + k) = sharing (params (firstId g v + k)) (params (firstId g f + k))) ∧
    (∀ v ∈ g.nodes, ParamNode g v → (∀ name, v ∉ (groupOf g g.nodes name).tail) → ∀ k < 2,
      params' (firstId g v + k) = params (firstId g v + k)) ∧
    SameLabels params params' := by
  have flat : (b.sortedOrigins.flatMap (replicaCopies b)).foldlM (fun p e => shareParam p e.1 e.2) params = .ok params' :=
    Run.foldlM_flatMap_ok (fun _ _ _ pass => shareReplicas_ok pass) run
  have same_group {name name' : String} {f f' v : Nat} {rest rest' : List Nat}
      (group : groupOf g g.nodes name = f :: rest) (group' : groupOf g g.nodes name' = f' :: rest')
      (hv : v ∈ f :: rest) (hv' : v ∈ f' :: rest') (has : ParamNode g v) : f = f' ∧ rest = rest' := by
    have origin : (g.node v).origin = name := h.origin_of_group (by rw [group]; exact hv) has
    have origin' : (g.node v).origin = name' := h.origin_of_group (by rw [group']; exact hv') has
    rw [← origin', origin, group] at group'
    exact List.cons.inj group'
  have mem_rest {name : String} {f v : Nat} {rest : List Nat} (group : groupOf g g.nodes name = f :: rest)
      (hv : v ∈ f :: rest) : v ∈ g.nodes := group_mem (group ▸ hv)
  -- the params of the first replicas are no targets
  have known (p : Nat → NetParam)
      (kept : ∀ id, id ∉ (b.sortedOrigins.flatMap (replicaCopies b)).map Prod.fst → p id = params id) :
      ∀ e ∈ b.sortedOrigins.flatMap (replicaCopies b), p e.2 = params e.2 := by
    intro e he
    refine kept e.2 fun mem => ?_
    obtain ⟨e', he', same⟩ := List.mem_map.mp mem
    obtain ⟨name, f, rest, group, v, hv, has, k, hk, rfl⟩ := h.mem_copies.mp he
    obtain ⟨name', f', rest', group', v', hv', has', k', hk', rfl⟩ := h.mem_copies.mp he'
    obtain ⟨rfl, -⟩ := firstId_inj (mem_rest group' (List.mem_cons_of_mem _ hv')) has'
      (mem_rest group List.mem_cons_self) hk' hk same
    obtain ⟨rfl, rfl⟩ := same_group group group' List.mem_cons_self (List.mem_cons_of_mem _ hv') has'
    exact (h.group_front group hv' has').1 rfl
  have single : ∀ e ∈ b.sortedOrigins.flatMap (replicaCopies b),
      ∀ e' ∈ b.sortedOrigins.flatMap (replicaCopies b), e.1 = e'.1 → e.2 = e'.2 := by
    intro e he e' he' same
    obtain ⟨name, f, rest, group, v, hv, has, k, hk, rfl⟩ := h.mem_copies.mp he
    obtain ⟨name', f', rest', group', v', hv', has', k', hk', rfl⟩ := h.mem_copies.mp he'
    obtain ⟨rfl, rfl⟩ := firstId_inj (mem_rest group (List.mem_cons_of_mem _ hv)) has
      (mem_rest group' (List.mem_cons_of_mem _ hv')) hk hk' same
    obtain ⟨rfl, -⟩ := same_group group group' (List.mem_cons_of_mem _ hv) (List.mem_cons_of_mem _ hv') has
    rfl
  obtain ⟨copied, kept⟩ := copies_ok known single flat
  refine ⟨fun name f rest group v hv has k hk => ?_, fun v hv has notTail k hk => ?_, fun id => ?_⟩
  · exact copied _ (h.mem_copies.mpr ⟨name, f, rest, group, v, hv, has, k, hk, rfl⟩)
  · refine kept _ fun mem => ?_
    obtain ⟨e, he, same⟩ := List.mem_map.mp mem
    obtain ⟨name, f, rest, group, w, hw, hasW, j, hj, rfl⟩ := h.mem_copies.mp he
    obtain ⟨rfl, -⟩ := firstId_inj (mem_rest group (List.mem_cons_of_mem _ hw)) hasW hv hj hk same
    exact notTail name (by rw [group]; exact hw)
  · by_cases mem : id ∈ (b.sortedOrigins.flatMap (replicaCopies b)).map Prod.fst
    · obtain ⟨e, he, rfl⟩ := List.mem_map.mp mem
      rw [copied e he]
      exact ⟨rfl, rfl, rfl⟩
    · rw [kept id mem]
      exact ⟨rfl, rfl, rfl⟩

/-- The layers of the net: those with params are the layers of nodes. -/
theorem layer_iff {layer : NetLayer} (some : layer.params ≠ []) :
    layer ∈ layersOf g b ↔
      ∃ v ∈ g.nodes, ParamNode g v ∧ layer = ⟨(g.node v).proto, [firstId g v, firstId g v + 1]⟩ := by
  rw [layersOf, List.mem_map]
  refine exists_congr fun v => and_congr_right fun hv => ?_
  by_cases has : ParamNode g v
  · rw [h.setUp.layer v hv has]
    simp [has, eq_comm]
  · refine iff_of_false (fun same => some ?_) fun param => has param.1
    rw [← same]
    cases at_v : b.layer v with
    | none => rfl
    | some layer => exact h.setUp.plain v has layer at_v

/-- The node of a layer with params, found by the layer's name. -/
theorem node_conf {conf : LayerConf} (mem : conf ∈ layers) {v : Nat} (hv : v ∈ g.nodes) (has : ParamNode g v)
    (name : (g.node v).proto.name = conf.proto.name) : ∃ i, NodeOf n conf.proto i (g.node v) := by
  obtain ⟨conf', mem', i, of⟩ := h.laid.paramNode hv has
  rw [of.proto] at name
  have same := h.plain.eq (List.mem_map_of_mem mem') (List.mem_map_of_mem mem) name
  exact ⟨i, same ▸ of⟩

/-- The entries of `name2param` own their blobs when the loops start. -/
theorem owned {v k : Nat} (m : String → Option Nat) (hv : v ∈ g.nodes) (has : ParamNode g v) (hk : k < 2) :
    Owned m base b.params (firstId g v + k) := by
  rw [Owned, h.setUp.params v hv has k hk]
  exact ⟨rfl, .inl rfl⟩

end Built

/-- The net that `CreateNetFromGraph` makes of the graph `g`; `params` are those between the two loops. -/
structure Created (iterate : List String → List String) (n : Nat) (layers : List LayerConf)
    (shape : Nat → Nat → List Nat) (base : Nat) (g : NetGraph) (b : Builder) (params : Nat → NetParam) (net : Net) :
    Prop where
  built : Built n layers shape base g b
  layers : net.layers = layersOf g b
  names : (iterate (((layersOf g b).flatMap NetLayer.params).map fun id => (b.params id).name).dedup).foldlM
    (shareEntry (name2param b (layersOf g b))) b.params = .ok params
  replicas : b.sortedOrigins.foldlM (shareReplicas b) params = .ok net.params

namespace Created

variable {iterate : List String → List String} {net : Net}
  (h : Created iterate n layers shape base g b params net)

include h

/-- A layer with params is that of a node. -/
theorem layer_node {layer : NetLayer} (mem : layer ∈ net.layers) {k p : Nat} (param : layer.params[k]? = some p) :
    ∃ v ∈ g.nodes, ParamNode g v ∧ layer = ⟨(g.node v).proto, [firstId g v, firstId g v + 1]⟩ ∧
      k < 2 ∧ p = firstId g v + k := by
  have some : layer.params ≠ [] := fun none => by simp [none] at param
  rw [h.layers] at mem
  obtain ⟨v, hv, has, rfl⟩ := (h.built.layer_iff some).mp mem
  have bound : k < 2 := (List.getElem?_eq_some_iff.mp param).1
  refine ⟨v, hv, has, rfl, bound, ?_⟩
  obtain rfl | rfl : k = 0 ∨ k = 1 := by omega
  · exact (Option.some.inj param).symm
  · exact (Option.some.inj param).symm

theorem node_layer {v : Nat} (hv : v ∈ g.nodes) (has : ParamNode g v) :
    ⟨(g.node v).proto, [firstId g v, firstId g v + 1]⟩ ∈ net.layers := by
  rw [h.layers]
  exact (h.built.layer_iff (by simp)).mpr ⟨v, hv, has, rfl⟩

/-- The loop over the groups leaves the other layers alone. -/
theorem not_replica {v k : Nat} (hv : v ∈ g.nodes) (has : ParamNode g v) (dim : (g.node v).proto.partitionDim ≠ 0)
    (hk : k < 2) : net.params (firstId g v + k) = params (firstId g v + k) := by
  refine (h.built.replicas_ok h.replicas).2.1 v hv has (fun name mem => ?_) k hk
  have mem := List.mem_of_mem_tail mem
  obtain ⟨conf, memConf, rfl, dimConf, type⟩ := h.built.group_conf mem has
  obtain ⟨-, i, of⟩ := (h.built.mem_groupOf memConf dimConf type).mp mem
  rw [of.proto] at dim
  exact dim dimConf

/-- The replicas of a layer on dimension 0 have the owner and the blob of the first one, which keeps its own. -/
theorem replicas_of {conf : LayerConf} (mem : conf ∈ layers) (dim : conf.proto.partitionDim = 0)
    (type : hasParams conf.proto.type = true) {u : Nat} (hu : u ∈ g.nodes)
    (ofU : ∃ i, NodeOf n conf.proto i (g.node u)) :
    ∃ f ∈ g.nodes, (groupOf g g.nodes conf.proto.name).head? = some f ∧ (∃ i, NodeOf n conf.proto i (g.node f)) ∧
      (∀ k < 2, net.params (firstId g f + k) = params (firstId g f + k)) ∧
      ∀ w ∈ g.nodes, (∃ i, NodeOf n conf.proto i (g.node w)) → ∀ k < 2,
        (net.params (firstId g w + k)).owner = (params (firstId g f + k)).owner ∧
          (net.params (firstId g w + k)).data = (params (firstId g f + k)).data := by
  have param {w : Nat} (ofW : ∃ i, NodeOf n conf.proto i (g.node w)) : ParamNode g w := by
    obtain ⟨i, of⟩ := ofW
    exact of.paramNode_iff.mpr type
  obtain ⟨copied, kept, -⟩ := h.built.replicas_ok h.replicas
  cases group : groupOf g g.nodes conf.proto.name with
  | nil =>
    have mem := (h.built.mem_groupOf mem dim type).mpr ⟨hu, ofU⟩
    simp [group] at mem
  | cons f rest =>
    have memF : f ∈ groupOf g g.nodes conf.proto.name := group ▸ List.mem_cons_self
    obtain ⟨hf, ofF⟩ := (h.built.mem_groupOf mem dim type).mp memF
    have front (k : Nat) (hk : k < 2) : net.params (firstId g f + k) = params (firstId g f + k) := by
      refine kept f hf (param ofF) (fun name memTail => ?_) k hk
      have origin := h.built.origin_of_group (List.mem_of_mem_tail memTail) (param ofF)
      rw [← origin, h.built.origin_of_group memF (param ofF), group] at memTail
      exact (h.built.group_front group memTail (param ofF)).1 rfl
    refine ⟨f, hf, rfl, ofF, front, fun w hw ofW k hk => ?_⟩
    have memW := (h.built.mem_groupOf mem dim type).mpr ⟨hw, ofW⟩
    rw [group] at memW
    rcases List.mem_cons.mp memW with rfl | memW
    · rw [front k hk]
      exact ⟨rfl, rfl⟩
    · rw [copied _ f rest group w memW (param ofW) k hk]
      exact ⟨rfl, rfl⟩

/-- After the loop over `name2param`, the blob of a param tells its owner. -/
theorem data_owner {v k : Nat} (hv : v ∈ g.nodes) (has : ParamNode g v) (hk : k < 2) :
    Owned (name2param b (layersOf g b)) base params (firstId g v + k) := by
  refine names_owned h.names (fun name id entry => ?_) (h.built.owned _ hv has hk)
  obtain ⟨w, hw, hasW, j, hj, rfl, -⟩ := h.built.name2param_mem entry
  exact h.built.owned _ hw hasW hj

/-- At the end, the blob of a param is that of its owner. -/
theorem data_eq {v k : Nat} (hv : v ∈ g.nodes) (has : ParamNode g v) (hk : k < 2) :
    (net.params (firstId g v + k)).data = base + (net.params (firstId g v + k)).owner ∧
      (net.params (firstId g v + k)).id = firstId g v + k := by
  obtain ⟨copied, kept, labels⟩ := h.built.replicas_ok h.replicas
  have id := (labels (firstId g v + k)).2.2.trans (names_labels h.names (firstId g v + k)).2.2
  rw [h.built.setUp.params v hv has k hk] at id
  refine ⟨?_, id⟩
  by_cases replica : ∃ name, v ∈ (groupOf g g.nodes name).tail
  · obtain ⟨name, tail⟩ := replica
    cases group : groupOf g g.nodes name with
    | nil => simp [group] at tail
    | cons f rest =>
      rw [group] at tail
      rw [copied name f rest group v tail has k hk]
      exact (h.data_owner (group_mem (group ▸ List.mem_cons_self)) (h.built.group_front group tail has).2 hk).1
  · rw [kept v hv has (fun name tail => replica ⟨name, tail⟩) k hk]
    exact (h.data_owner hv has hk).1

end Created

theorem createNetFromGraph_ok {iterate : List String → List String} {net : Net}
    (plain : PlainNet (layers.map LayerConf.proto)) (laid : Laid n (layers.map LayerConf.proto) g)
    (run : createNetFromGraph iterate layers shape base g = .ok net) :
    ∃ b params, Created iterate n layers shape base g b params net := by
  obtain ⟨b, setup, run⟩ := Run.do_ok.mp run
  obtain ⟨built, made, run⟩ := Run.do_ok.mp run
  obtain ⟨params, names, run⟩ := Run.do_ok.mp run
  obtain ⟨last, replicas, run⟩ := Run.do_ok.mp run
  obtain ⟨here, rfl⟩ := built_of_ok plain laid setup made
  cases run
  exact ⟨b, params, here, rfl, names, replicas⟩

theorem create_ok {fuel : Nat} {factory : Factory} {iterate : List String → List String} {conf : NetProto}
    {phase : Phase} {net : Net} (plain : PlainNet ((included conf phase).map LayerConf.proto))
    (run : create fuel factory iterate shape base conf phase n = .ok net) :
    ∃ g b params, Created iterate n (included conf phase) shape base g b params net := by
  obtain ⟨-, -, run⟩ := Run.do_ok.mp run
  obtain ⟨g, graph, run⟩ := Run.do_ok.mp run
  exact ⟨g, createNetFromGraph_ok plain (createGraph_laid plain graph) run⟩

end Singa.NeuralNet
