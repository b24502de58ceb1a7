import Singa.Neuralnet.ShareParams
import Singa.Utils.Param

/-!
# `trainer/worker.cc`: checkpoints

Every worker of group 0 writes the params that its partition owns, under their
names, and a worker that starts takes from all files the params of its own
partition by name, the last one that has it. The partitions of a layer on
dimension 1 own params of the same names.
-/

namespace Singa
set_option autoImplicit false

variable {α : Type}

/-- A data blob with its shape, values and version. -/
structure Held (α : Type) where
  shape : List Nat
  values : List α
  version : Int
  positive : ∀ s ∈ shape, s ≠ 0
  sized : values.length = shape.prod

/-- A blob of a checkpoint file. -/
structure BlobRecord (α : Type) where
  name : String
  version : Int
  shape : List Nat
  data : List α

/-- The fields of `ModelProto` that the initialisation reads; `fill` is what `InitValues` makes of the
cells of a param. -/
structure InitConf (α : Type) where
  step : Nat
  resetParamVersion : Bool
  fill : Nat → Nat → α

namespace Held

/-- `set_version`. -/
def withVersion (held : Held α) (version : Int) : Held α := { held with version }

/-- `Blob::FromProto`. -/
def fromProto (held : Held α) (shape : List Nat) (data : List α) : Run (Held α) :=
  if positive : ∀ s ∈ shape, s ≠ 0 then
    if enough : shape.prod ≤ data.length then
      .ok ⟨shape, data.take shape.prod, held.version, positive, by rw [List.length_take, Nat.min_eq_left enough]⟩
    else .error .range
  else .error .shape

/-- `Param::InitValues`. -/
def initValues (held : Held α) (fill : Nat → α) (version : Int) : Held α :=
  ⟨held.shape, (List.range held.shape.prod).map fill, version, held.positive, by simp⟩

/-- A blob that was written is read back. -/
theorem fromProto_saved (held saved : Held α) :
    held.fromProto saved.shape saved.values = .ok (saved.withVersion held.version) := by
  have whole : saved.values.take saved.shape.prod = saved.values := List.take_of_length_le saved.sized.le
  rw [fromProto, dif_pos saved.positive, dif_pos saved.sized.ge]
  simp only [whole]
  rfl

end Held

namespace Worker

/-- The params of the partition `id` that own themselves. -/
def owned (net : Net) (id : Nat) : List Nat :=
  (net.layers.filter (·.proto.partitionId = (id : Int))).flatMap fun layer =>
    layer.params.filter fun p => (net.params p).owner = (net.params p).id

/-- `param->ToProto(blob)`, with its version and name. -/
def toRecord (net : Net) (heap : Nat → Held α) (p : Nat) : BlobRecord α :=
  let blob := heap (net.params p).data
  ⟨(net.params p).name, blob.version, blob.shape, blob.values⟩

/-- `Worker::Checkpoint`: the file of the worker, if it is of group 0. -/
def checkpoint (net : Net) (heap : Nat → Held α) (grpId id : Nat) : Option (List (BlobRecord α)) :=
  if grpId = 0 then some ((owned net id).map (toRecord net heap)) else none

/-- `name2param` of `InitLocalParams`, by the params that are entered. -/
def localParams (net : Net) (id : Nat) : Run (List Nat) :=
  (owned net id).foldlM (fun entered p =>
    if (net.params p).name ∈ entered.map fun q => (net.params q).name then .error .paramTwice
    else .ok (entered ++ [p])) []

/-- One pass of the loop over the blobs of a file. -/
def loadRecord (conf : InitConf α) (net : Net) (entered : List Nat) (heap : Nat → Held α) (r : BlobRecord α) :
    Run (Nat → Held α) :=
  match entered.find? fun p => (net.params p).name = r.name with
  | some p => do
    let blob ← (heap (net.params p).data).fromProto r.shape r.data
    .ok (Function.update heap (net.params p).data
      (blob.withVersion (if conf.resetParamVersion then conf.step else r.version)))
  | none => .ok heap

/-- The blobs, and the params for which `InitValues` was called. -/
structure Restored (α : Type) where
  heap : Nat → Held α
  initialised : List Nat

/-- One pass of the loop that initialises what has no version. -/
def initParam (conf : InitConf α) (net : Net) (s : Restored α) (p : Nat) : Restored α :=
  let blob := s.heap (net.params p).data
  if blob.version < 0 then
    ⟨Function.update s.heap (net.params p).data (blob.initValues (conf.fill p) conf.step), s.initialised ++ [p]⟩
  else s

/-- `Worker::InitLocalParams`. The order in which `name2param` is iterated only decides which random
numbers a param gets. -/
def initLocalParams (cluster : ClusterProto) (conf : InitConf α) (net : Net) (files : List (List (BlobRecord α)))
    (grpId : Nat) (s : Restored α) (id : Nat) : Run (Restored α) :=
  let groups := cluster.nworkerGroupsPerServerGroup
  if groups = 0 then .error .divZero
  else if grpId % groups = 0 then do
    let entered ← localParams net id
    let heap ← files.foldlM (fun heap file => file.foldlM (loadRecord conf net entered) heap) s.heap
    .ok (entered.foldl (initParam conf net) { s with heap })
  else .ok s

/-! ## The params of a worker -/

/-- A param that owns itself. -/
def Owner (net : Net) (p : Nat) : Prop :=
  p ∈ net.layers.flatMap NetLayer.params ∧ (net.params p).owner = (net.params p).id

/-- Layers share no params, and owners no blobs. -/
structure Apart (net : Net) : Prop where
  layer : ∀ l ∈ net.layers, ∀ l' ∈ net.layers, ∀ p, p ∈ l.params → p ∈ l'.params →
    l.proto.partitionId = l'.proto.partitionId
  data : ∀ p q, Owner net p → Owner net q → (net.params p).data = (net.params q).data → p = q

theorem mem_owned {net : Net} {id p : Nat} :
    p ∈ owned net id ↔ ∃ layer ∈ net.layers, layer.proto.partitionId = id ∧ p ∈ layer.params ∧
      (net.params p).owner = (net.params p).id := by
  simp [owned, and_assoc]

theorem owner_of_owned {net : Net} {id p : Nat} (mem : p ∈ owned net id) : Owner net p := by
  obtain ⟨layer, hl, -, param, own⟩ := mem_owned.mp mem
  exact ⟨List.mem_flatMap.mpr ⟨layer, hl, param⟩, own⟩

/-- A param is owned in one partition. -/
theorem Apart.owned_once {net : Net} (apart : Apart net) {i j p : Nat} (hi : p ∈ owned net i) (hj : p ∈ owned net j) :
    i = j := by
  obtain ⟨l, hl, id, param, -⟩ := mem_owned.mp hi
  obtain ⟨l', hl', id', param', -⟩ := mem_owned.mp hj
  have same := apart.layer l hl l' hl' p param param'
  rw [id, id'] at same
  exact_mod_cast same

/-- `name2param`, where no name is found twice. -/
theorem localParams_ok {net : Net} {id : Nat} {entered : List Nat} (h : localParams net id = .ok entered) :
    entered = owned net id ∧ ((owned net id).map fun p => (net.params p).name).Nodup := by
  refine Run.foldlM_inv (fun done entered => entered = done ∧ (done.map fun p => (net.params p).name).Nodup)
    (fun done p entered entered' inv pass => ?_) ⟨rfl, List.nodup_nil⟩ h
  obtain ⟨rfl, nodup⟩ := inv
  split at pass
  · cases pass
  · rename_i new
    cases pass
    refine ⟨rfl, ?_⟩
    rw [List.map_append]
    refine List.nodup_append.mpr ⟨nodup, List.nodup_singleton _, fun a ha c hc same => new ?_⟩
    rw [List.map_singleton, List.mem_singleton] at hc
    rwa [← hc, ← same]

/-! ## What a worker restores -/

section Restore

variable {net : Net} {conf : InitConf α} {saved : Nat → Held α}

/-- What a param is to hold again. -/
def target (conf : InitConf α) (net : Net) (saved : Nat → Held α) (p : Nat) : Held α :=
  (saved (net.params p).data).withVersion
    (if conf.resetParamVersion then conf.step else (saved (net.params p).data).version)

/-- The last of the params of that name. -/
def lastOf (net : Net) (written : List Nat) (name : String) : Option Nat :=
  written.reverse.find? fun q => (net.params q).name = name

theorem lastOf_snoc (written : List Nat) (q : Nat) (name : String) : lastOf net (written ++ [q]) name =
    if (net.params q).name = name then some q else lastOf net written name := by
  rw [lastOf, List.reverse_append, List.reverse_singleton, List.singleton_append, List.find?_cons]
  by_cases here : (net.params q).name = name
  · simp [here]
  · simp [here, lastOf]

theorem lastOf_found {written : List Nat} {p : Nat} (mem : p ∈ written) :
    ∃ q ∈ written, (net.params q).name = (net.params p).name ∧ lastOf net written (net.params p).name = some q := by
  have found : (lastOf net written (net.params p).name).isSome :=
    List.find?_isSome.mpr ⟨p, List.mem_reverse.mpr mem, by simp⟩
  obtain ⟨q, last⟩ := Option.isSome_iff_exists.mp found
  exact ⟨q, List.mem_reverse.mp (List.mem_of_find?_eq_some last), by simpa using List.find?_some last, last⟩

theorem lastOf_append (before : List Nat) {after : List Nat} {name : String} {q : Nat}
    (last : lastOf net after name = some q) : lastOf net (before ++ after) name = some q := by
  rw [lastOf] at last
  rw [lastOf, List.reverse_append, List.find?_append, last]
  rfl

/-- The params that `InitLocalParams` works on: their names and their blobs are apart. -/
structure Entered (net : Net) (entered : List Nat) : Prop where
  names : ∀ p ∈ entered, ∀ q ∈ entered, (net.params p).name = (net.params q).name → p = q
  data : ∀ p ∈ entered, ∀ q ∈ entered, (net.params p).data = (net.params q).data → p = q
  nodup : entered.Nodup

theorem entered_of_ok {id : Nat} (apart : Apart net) {entered : List Nat} (h : localParams net id = .ok entered) :
    Entered net (owned net id) := by
  obtain ⟨-, nodup⟩ := localParams_ok h
  refine ⟨fun p hp q hq same => List.inj_on_of_nodup_map nodup hp hq same, fun p hp q hq same => ?_,
    List.Nodup.of_map _ nodup⟩
  exact apart.data p q (owner_of_owned hp) (owner_of_owned hq) same

/-- The loop over the blobs of all files: every param gets the last one of its name. -/
theorem load_ok (conf : InitConf α) (saved : Nat → Held α) {entered : List Nat} (inv : Entered net entered) (written : List Nat) (heap : Nat → Held α) :
    ∃ heap', (written.map (toRecord net saved)).foldlM (loadRecord conf net entered) heap = .ok heap' ∧
      (∀ p ∈ entered, heap' (net.params p).data =
        ((lastOf net written (net.params p).name).map (target conf net saved)).getD (heap (net.params p).data)) ∧
      ∀ a, a ∉ entered.map (fun p => (net.params p).data) → heap' a = heap a := by
  rw [List.foldlM_map]
  refine Run.foldlM_prefix (fun done (heap' : Nat → Held α) => (∀ p ∈ entered, heap' (net.params p).data =
      ((lastOf net done (net.params p).name).map (target conf net saved)).getD (heap (net.params p).data)) ∧
    ∀ a, a ∉ entered.map (fun p => (net.params p).data) → heap' a = heap a)
    (fun done q rest s _ inv' => ?_) ⟨fun _ _ => rfl, fun _ _ => rfl⟩
  obtain ⟨loaded, others⟩ := inv'
  rw [loadRecord]
  cases found : entered.find? fun p => (net.params p).name = (toRecord net saved q).name with
  | none =>
    refine ⟨s, rfl, fun p hp => ?_, others⟩
    have differs : (net.params q).name ≠ (net.params p).name := fun same => by
      have here := List.find?_eq_none.mp found p hp
      exact here (decide_eq_true same.symm)
    rw [lastOf_snoc, if_neg differs]
    exact loaded p hp
  | some r =>
    have hr := List.mem_of_find?_eq_some found
    have here := List.find?_some found
    have name : (net.params r).name = (net.params q).name := of_decide_eq_true here
    have read : (s (net.params r).data).fromProto (toRecord net saved q).shape (toRecord net saved q).data =
        .ok ((saved (net.params q).data).withVersion (s (net.params r).data).version) := Held.fromProto_saved _ _
    refine ⟨_, Run.do_ok.mpr ⟨_, read, rfl⟩, fun p hp => ?_, fun a ha => ?_⟩
    · rw [lastOf_snoc]
      by_cases same : p = r
      · rw [same, Function.update_self, if_pos name.symm]
        rfl
      · have differs : (net.params q).name ≠ (net.params p).name := fun eq =>
          same (inv.names p hp r hr (eq.symm.trans name.symm))
        rw [if_neg differs, Function.update_of_ne fun eq => same (inv.data p hp r hr eq)]
        exact loaded p hp
    · have other : a ≠ (net.params r).data := fun eq => ha (List.mem_map.mpr ⟨r, hr, eq.symm⟩)
      rw [Function.update_of_ne other]
      exact others a ha

/-- What the initialisation makes of a blob. -/
def settled (conf : InitConf α) (p : Nat) (blob : Held α) : Held α :=
  if blob.version < 0 then blob.initValues (conf.fill p) conf.step else blob

theorem settled_version (conf : InitConf α) (p : Nat) (blob : Held α) : 0 ≤ (settled conf p blob).version := by
  rw [settled]
  split
  · exact Int.natCast_nonneg _
  · omega

/-- The loop that initialises what has no version. -/
theorem init_ok (conf : InitConf α) {entered : List Nat} (inv : Entered net entered) (s : Restored α) :
    (∀ p ∈ entered, (entered.foldl (initParam conf net) s).heap (net.params p).data =
      settled conf p (s.heap (net.params p).data)) ∧
    (∀ a, a ∉ entered.map (fun p => (net.params p).data) → (entered.foldl (initParam conf net) s).heap a = s.heap a) ∧
    ∀ p, p ∈ (entered.foldl (initParam conf net) s).initialised ↔
      p ∈ s.initialised ∨ (p ∈ entered ∧ (s.heap (net.params p).data).version < 0) := by
  induction entered generalizing s with
  | nil => simp
  | cons q entered ih =>
    have rest : Entered net entered := ⟨fun p hp r hr => inv.names p (List.mem_cons_of_mem q hp) r (List.mem_cons_of_mem q hr),
      fun p hp r hr => inv.data p (List.mem_cons_of_mem q hp) r (List.mem_cons_of_mem q hr),
      (List.nodup_cons.mp inv.nodup).2⟩
    have fresh : q ∉ entered := (List.nodup_cons.mp inv.nodup).1
    have other {p : Nat} (hp : p ∈ entered) : (net.params p).data ≠ (net.params q).data := fun same =>
      fresh (inv.data p (List.mem_cons_of_mem q hp) q List.mem_cons_self same ▸ hp)
    obtain ⟨values, frame, initialised⟩ := ih rest (initParam conf net s q)
    have here : (initParam conf net s q).heap (net.params q).data = settled conf q (s.heap (net.params q).data) := by
      by_cases none : (s.heap (net.params q).data).version < 0
      · simp [initParam, settled, none]
      · simp [initParam, settled, none]
    have away (a : Nat) (ne : a ≠ (net.params q).data) : (initParam conf net s q).heap a = s.heap a := by
      by_cases none : (s.heap (net.params q).data).version < 0
      · simp [initParam, none, ne]
      · simp [initParam, none]
    rw [List.foldl_cons]
    refine ⟨fun p hp => ?_, fun a ha => ?_, fun p => ?_⟩
    · rcases List.mem_cons.mp hp with rfl | hp
      · rw [frame _ fun mem => ?_, here]
        obtain ⟨r, hr, same⟩ := List.mem_map.mp mem
        exact other hr same
      · rw [values p hp, away _ (other hp)]
    · rw [List.map_cons, List.mem_cons, not_or] at ha
      rw [frame a ha.2, away a ha.1]
    · rw [initialised p, List.mem_cons]
      have first : p ∈ (initParam conf net s q).initialised ↔
          p ∈ s.initialised ∨ (p = q ∧ (s.heap (net.params q).data).version < 0) := by
        by_cases none : (s.heap (net.params q).data).version < 0
        · simp [initParam, none]
        · simp [initParam, none]
      rw [first]
      by_cases later : p ∈ entered
      · rw [away _ (other later)]
        have ne : p ≠ q := fun same => fresh (same ▸ later)
        simp [later, ne]
      · by_cases same : p = q
        · simp [same, fresh]
        · simp [later, same]

/-! ## A worker, and the group -/

/-- The params that the files of the workers `order` hold, one after the other. -/
def written (net : Net) (order : List Nat) : List Nat := order.flatMap (owned net)

/-- The files of group 0, in the order of the workers `order`. -/
def filesOf (net : Net) (saved : Nat → Held α) (order : List Nat) : List (List (BlobRecord α)) :=
  order.filterMap (checkpoint net saved 0)

theorem filesOf_flatten (order : List Nat) :
    (filesOf net saved order).flatten = (written net order).map (toRecord net saved) := by
  rw [filesOf, written, List.map_flatMap]
  induction order with
  | nil => rfl
  | cons id order ih =>
    have file : checkpoint net saved 0 id = some ((owned net id).map (toRecord net saved)) := rfl
    rw [List.filterMap_cons, file, List.flatten_cons, ih, List.flatMap_cons]

/-- The param `p` is restored from the last one of its name. -/
def Settled (conf : InitConf α) (net : Net) (saved : Nat → Held α) (all : List Nat) (s : Restored α) (p : Nat) : Prop :=
  ∀ q, lastOf net all (net.params p).name = some q →
    s.heap (net.params p).data = settled conf p (target conf net saved q) ∧
      (p ∈ s.initialised ↔ (target conf net saved q).version < 0)

/-- One worker restores its params and leaves the others alone. -/
theorem worker_ok (conf : InitConf α) (saved : Nat → Held α) {cluster : ClusterProto} (order : List Nat) {id : Nat} (apart : Apart net)
    (groups : cluster.nworkerGroupsPerServerGroup ≠ 0) (check : ∃ entered, localParams net id = .ok entered)
    (s : Restored α) (fresh : ∀ p ∈ owned net id, p ∉ s.initialised) :
    ∃ s', initLocalParams cluster conf net (filesOf net saved order) 0 s id = .ok s' ∧
      (∀ p ∈ owned net id, Settled conf net saved (written net order) s' p) ∧
      ∀ p, Owner net p → p ∉ owned net id →
        s'.heap (net.params p).data = s.heap (net.params p).data ∧ (p ∈ s'.initialised ↔ p ∈ s.initialised) := by
  obtain ⟨entered, check⟩ := check
  have inv := entered_of_ok apart check
  obtain ⟨rfl, -⟩ := localParams_ok check
  obtain ⟨heap, load, values, frame⟩ := load_ok conf saved inv (written net order) s.heap
  obtain ⟨inited, kept, initialised⟩ := init_ok conf inv { s with heap }
  refine ⟨(owned net id).foldl (initParam conf net) { s with heap }, ?_, fun p hp q last => ?_, fun p hp away => ?_⟩
  · rw [initLocalParams, if_neg groups, if_pos (Nat.zero_mod _)]
    refine Run.do_ok.mpr ⟨_, check, Run.do_ok.mpr ⟨heap, ?_, rfl⟩⟩
    rw [← load, ← filesOf_flatten, Run.foldlM_flatten]
  · have loaded : heap (net.params p).data = target conf net saved q := by
      rw [values p hp, last]
      rfl
    refine ⟨(inited p hp).trans (congrArg _ loaded), (initialised p).trans ?_⟩
    simp [fresh p hp, hp, loaded]
  · have other : (net.params p).data ∉ (owned net id).map fun q => (net.params q).data := fun mem => by
      obtain ⟨q, hq, same⟩ := List.mem_map.mp mem
      exact away (apart.data q p (owner_of_owned hq) hp same ▸ hq)
    refine ⟨(kept _ other).trans (frame _ other), (initialised p).trans ?_⟩
    simp [away]

/-- The workers of group 0, in some order, start from all files. -/
def restoreGroup (cluster : ClusterProto) (conf : InitConf α) (net : Net) (files : List (List (BlobRecord α)))
    (fresh : Nat → Held α) (workers : List Nat) : Run (Restored α) :=
  workers.foldlM (initLocalParams cluster conf net files 0) ⟨fresh, []⟩

/-- The whole group restores the params of all its workers. -/
theorem group_ok (conf : InitConf α) (saved : Nat → Held α) {cluster : ClusterProto} (order : List Nat)
    {workers : List Nat} (apart : Apart net)
    (groups : cluster.nworkerGroupsPerServerGroup ≠ 0)
    (checks : ∀ id ∈ workers, ∃ entered, localParams net id = .ok entered) (nodup : workers.Nodup)
    (fresh : Nat → Held α) :
    ∃ s, restoreGroup cluster conf net (filesOf net saved order) fresh workers = .ok s ∧
      ∀ id ∈ workers, ∀ p ∈ owned net id, Settled conf net saved (written net order) s p := by
  have all := Run.foldlM_prefix (fun done (s : Restored α) =>
      (∀ id ∈ done, ∀ p ∈ owned net id, Settled conf net saved (written net order) s p) ∧
        ∀ id ∈ workers, id ∉ done → ∀ p ∈ owned net id, p ∉ s.initialised)
    (f := initLocalParams cluster conf net (filesOf net saved order) 0) (l := workers) (s := ⟨fresh, []⟩)
    (fun done id rest s split inv => ?_) ⟨by simp, by simp⟩
  · obtain ⟨s, run, settled, -⟩ := all
    exact ⟨s, run, settled⟩
  · obtain ⟨before, untouched⟩ := inv
    have mem : id ∈ workers := by simp [split]
    have new : id ∉ done := fun hd => by
      rw [split] at nodup
      exact (List.nodup_append.mp nodup).2.2 id hd id List.mem_cons_self rfl
    obtain ⟨s', run, own, others⟩ := worker_ok conf saved order apart groups
      (checks id mem) s (untouched id mem new)
    refine ⟨s', run, fun i hi p hp => ?_, fun i hi away p hp => ?_⟩
    · rcases List.mem_append.mp hi with hi | hi
      · have away : p ∉ owned net id := fun here => new (apart.owned_once here hp ▸ hi)
        obtain ⟨value, inits⟩ := others p (owner_of_owned hp) away
        intro q last
        rw [value, inits]
        exact before i hi p hp q last
      · rw [List.mem_singleton.mp hi] at hp
        exact own p hp
    · rw [List.mem_append, List.mem_singleton, not_or] at away
      have apartFrom : p ∉ owned net id := fun here => away.2 (apart.owned_once hp here)
      rw [(others p (owner_of_owned hp) apartFrom).2]
      exact untouched i hi away.1 p hp

/-! ## Restoring a checkpoint -/

/-- Every param that owns itself holds what it held, and none that had a version is initialised again. -/
def Restores (conf : InitConf α) (net : Net) (saved : Nat → Held α) (s : Restored α) : Prop :=
  ∀ p, Owner net p → s.heap (net.params p).data = target conf net saved p ∧
    (0 ≤ (saved (net.params p).data).version → p ∉ s.initialised)

/-- The checkpoint has a version for every param, and one content for every name. -/
structure Restorable (conf : InitConf α) (net : Net) (saved : Nat → Held α) : Prop where
  versions : ∀ p, Owner net p → 0 ≤ (target conf net saved p).version
  names : ∀ p q, Owner net p → Owner net q → (net.params p).name = (net.params q).name →
    target conf net saved p = target conf net saved q

theorem restores_iff_of_apart {cluster : ClusterProto} {n : Nat} (apart : Apart net)
    (groups : cluster.nworkerGroupsPerServerGroup ≠ 0)
    (placed : ∀ p, Owner net p → ∃ id < n, p ∈ owned net id)
    (checks : ∀ id < n, ∃ entered, localParams net id = .ok entered) (fresh : Nat → Held α) :
    (∀ order workers : List Nat, order.Perm (List.range n) → workers.Perm (List.range n) → ∀ s,
      restoreGroup cluster conf net (filesOf net saved order) fresh workers = .ok s → Restores conf net saved s) ↔
      Restorable conf net saved := by
  have member {order : List Nat} (perm : order.Perm (List.range n)) {p : Nat} (hp : Owner net p) :
      p ∈ written net order := by
    obtain ⟨id, hid, mem⟩ := placed p hp
    exact List.mem_flatMap.mpr ⟨id, perm.mem_iff.mpr (List.mem_range.mpr hid), mem⟩
  have owners {order : List Nat} {p : Nat} (mem : p ∈ written net order) : Owner net p := by
    obtain ⟨id, -, mem⟩ := List.mem_flatMap.mp mem
    exact owner_of_owned mem
  have group (order : List Nat) {workers : List Nat} (permW : workers.Perm (List.range n)) :
      ∃ s, restoreGroup cluster conf net (filesOf net saved order) fresh workers = .ok s ∧
        ∀ p, Owner net p → Settled conf net saved (written net order) s p := by
    obtain ⟨s, run, settled⟩ := group_ok conf saved order apart groups
      (fun id hid => checks id (List.mem_range.mp (permW.mem_iff.mp hid))) (permW.nodup_iff.mpr List.nodup_range) fresh
    refine ⟨s, run, fun p hp => ?_⟩
    obtain ⟨id, hid, mem⟩ := placed p hp
    exact settled id (permW.mem_iff.mpr (List.mem_range.mpr hid)) p mem
  constructor
  · intro restores
    have versions (p : Nat) (hp : Owner net p) : 0 ≤ (target conf net saved p).version := by
      obtain ⟨s, run, settled⟩ := group (List.range n) (.refl _)
      obtain ⟨q, -, -, last⟩ := lastOf_found (member (.refl _) hp)
      have value := (restores _ _ (.refl _) (.refl _) s run p hp).1
      rw [← value, (settled p hp q last).1]
      exact settled_version conf p _
    refine ⟨versions, fun p q hp hq same => ?_⟩
    -- the file that has `q` may be the last one
    obtain ⟨id, hid, mem⟩ := placed q hq
    have perm : ((List.range n).erase id ++ [id]).Perm (List.range n) :=
      List.perm_append_comm.trans (List.perm_cons_erase (List.mem_range.mpr hid)).symm
    obtain ⟨s, run, settled⟩ := group ((List.range n).erase id ++ [id]) (.refl _)
    have last : lastOf net (written net ((List.range n).erase id ++ [id])) (net.params p).name = some q := by
      obtain ⟨r, hr, name, found⟩ := lastOf_found mem
      obtain ⟨entered, check⟩ := checks id hid
      have only := (entered_of_ok apart check).names r hr q mem name
      rw [written, List.flatMap_append, List.flatMap_singleton, same]
      exact lastOf_append _ (only ▸ found)
    have value := (restores _ _ perm (.refl _) s run p hp).1
    rw [(settled p hp q last).1, Worker.settled, if_neg (not_lt.mpr (versions q hq))] at value
    exact value.symm
  · intro cond order workers perm permW s run p hp
    obtain ⟨s', run', settled⟩ := group order permW
    rw [run] at run'
    cases run'
    obtain ⟨q, hq, name, last⟩ := lastOf_found (member perm hp)
    obtain ⟨value, inits⟩ := settled p hp q last
    have same := cond.names q p (owners hq) hp name
    have version := cond.versions p hp
    rw [same] at value inits
    refine ⟨?_, fun _ mem => ?_⟩
    · rw [value, Worker.settled, if_neg (not_lt.mpr version)]
    · have none := inits.mp mem
      omega

end Restore

/-! ## The nets of `NeuralNet::Create` -/

variable {iterate : List String → List String} {n : Nat} {layers : List LayerConf} {shape : Nat → Nat → List Nat}
  {base : Nat} {g : NetGraph} {b : NeuralNet.Builder} {params : Nat → NetParam} {net : Net}

open NeuralNet in
theorem apart_of_created (h : Created iterate n layers shape base g b params net) : Apart net := by
  have node {layer : NetLayer} (hl : layer ∈ net.layers) {p : Nat} (hp : p ∈ layer.params) :
      ∃ v ∈ g.nodes, ParamNode g v ∧ layer = ⟨(g.node v).proto, [firstId g v, firstId g v + 1]⟩ ∧
        ∃ k < 2, p = firstId g v + k := by
    obtain ⟨k, param⟩ := List.mem_iff_getElem?.mp hp
    obtain ⟨v, hv, has, here, hk, id⟩ := h.layer_node hl param
    exact ⟨v, hv, has, here, k, hk, id⟩
  refine ⟨fun l hl l' hl' p hp hp' => ?_, fun p q hp hq same => ?_⟩
  · obtain ⟨v, hv, has, rfl, k, hk, rfl⟩ := node hl hp
    obtain ⟨v', hv', has', rfl, k', hk', id⟩ := node hl' hp'
    obtain ⟨rfl, -⟩ := firstId_inj hv has hv' hk hk' id
    rfl
  · have blob {p : Nat} (hp : Owner net p) : (net.params p).data = base + p := by
      obtain ⟨listed, own⟩ := hp
      obtain ⟨layer, hl, param⟩ := List.mem_flatMap.mp listed
      obtain ⟨v, hv, has, -, k, hk, rfl⟩ := node hl param
      obtain ⟨data, id⟩ := h.data_eq hv has hk
      rw [data, own, id]
    rw [blob hp, blob hq] at same
    omega

open NeuralNet in
theorem placed_of_created (h : Created iterate n layers shape base g b params net)
    (ids : ∀ layer ∈ layers, layer.proto.partitionDim ≠ 0 → layer.proto.partitionDim ≠ 1 →
      ∃ id < n, layer.proto.partitionId = (id : Nat)) (p : Nat) (hp : Owner net p) : ∃ id < n, p ∈ owned net id := by
  obtain ⟨listed, own⟩ := hp
  obtain ⟨layer, hl, param⟩ := List.mem_flatMap.mp listed
  obtain ⟨k, index⟩ := List.mem_iff_getElem?.mp param
  obtain ⟨v, hv, has, rfl, -, -⟩ := h.layer_node hl index
  obtain ⟨conf, mem, i, of⟩ := h.built.laid.paramNode hv has
  have pid : (g.node v).proto.partitionId = i := by rw [of.proto]
  have inside : ∃ id < n, i = (id : Nat) := by
    have memIds := of.id
    rw [layerIds] at memIds
    split at memIds
    · obtain ⟨id, hid, rfl⟩ := List.mem_map.mp memIds
      exact ⟨id, List.mem_range.mp hid, rfl⟩
    · rename_i dim
      rw [List.mem_singleton.mp memIds]
      exact ids conf mem (fun zero => dim (.inl zero)) fun one => dim (.inr one)
  obtain ⟨id, hid, here⟩ := inside
  exact ⟨id, hid, mem_owned.mpr ⟨_, hl, pid.trans here, param, own⟩⟩

/-- **A checkpoint is restored, whatever the order of its files, exactly when params of one name hold the same
and every param has a version**: that of the checkpoint, or the step if it is to be reset. -/
theorem restores_iff {fuel : Nat} {factory : Factory} {netConf : NetProto} {phase : Phase} {cluster : ClusterProto}
    (conf : InitConf α) (saved fresh : Nat → Held α)
    (plain : NeuralNet.PlainNet ((NeuralNet.included netConf phase).map LayerConf.proto))
    (run : NeuralNet.create fuel factory iterate shape base netConf phase n = .ok net)
    (ids : ∀ layer ∈ NeuralNet.included netConf phase, layer.proto.partitionDim ≠ 0 → layer.proto.partitionDim ≠ 1 →
      ∃ id < n, layer.proto.partitionId = (id : Nat))
    (groups : cluster.nworkerGroupsPerServerGroup ≠ 0)
    (checks : ∀ id < n, ∃ entered, localParams net id = .ok entered) :
    (∀ order workers : List Nat, order.Perm (List.range n) → workers.Perm (List.range n) → ∀ s,
      restoreGroup cluster conf net (filesOf net saved order) fresh workers = .ok s → Restores conf net saved s) ↔
      Restorable conf net saved := by
  obtain ⟨g, b, params, h⟩ := NeuralNet.create_ok plain run
  exact restores_iff_of_apart (apart_of_created h) groups (placed_of_created h ids) checks fresh

/-! ## Two workers -/

/-- Two workers and one server. -/
def pairCluster : ClusterProto := ⟨1, 1, 2, 1⟩

/-- Every blob has its own values. -/
def pairSaved (a : Nat) : Held Nat := ⟨[2], [a, a], 3, by decide, rfl⟩

def pairFresh (_ : Nat) : Held Nat := ⟨[2], [0, 0], -1, by decide, rfl⟩

def pairConf : InitConf Nat := ⟨5, false, fun _ _ => 7⟩

/-- What is read off the params `0`, .., `3` of a net. -/
def labelsOf (net : Net) : List Nat × List (Nat × Nat) × List String :=
  (net.layers.flatMap NetLayer.params, (List.range 4).map fun p => ((net.params p).owner, (net.params p).id),
    (List.range 4).map fun p => (net.params p).name)

/-- Replicas have one owner, and the checkpoint is restored. -/
theorem replicas_restored : ∃ net, NeuralNet.connectedTrain 0 = .ok net ∧
    ∀ order workers : List Nat, order.Perm (List.range 2) → workers.Perm (List.range 2) → ∀ s,
      restoreGroup pairCluster pairConf net (filesOf net pairSaved order) pairFresh workers = .ok s →
        Restores pairConf net pairSaved s := by
  have all : (do
      let net ← NeuralNet.connectedTrain 0
      let first ← localParams net 0
      let second ← localParams net 1
      .ok (labelsOf net, first, second)) =
      .ok (([0, 1, 2, 3], [(0, 0), (1, 1), (0, 2), (1, 3)], ["fc$", "fc$$", "fc$", "fc$$"]), [0, 1], []) := by
    decide +kernel
  obtain ⟨net, run, all⟩ := Run.do_ok.mp all
  obtain ⟨first, check, all⟩ := Run.do_ok.mp all
  obtain ⟨second, check', all⟩ := Run.do_ok.mp all
  simp only [labelsOf, List.range_succ, List.range_zero, List.nil_append, List.map_cons, List.map_nil,
    List.cons_append, Except.ok.injEq, Prod.mk.injEq, List.cons.injEq] at all
  have owner {p : Nat} (hp : Owner net p) : p = 0 ∨ p = 1 := by
    obtain ⟨listed, own⟩ := hp
    rw [all.1.1] at listed
    simp only [List.mem_cons, List.not_mem_nil, or_false] at listed
    rcases listed with rfl | rfl | rfl | rfl
    · exact .inl rfl
    · exact .inr rfl
    · omega
    · omega
  have zero : (net.params 0).name = "fc$" := by simp [all]
  have one : (net.params 1).name = "fc$$" := by simp [all]
  refine ⟨net, run, (restores_iff pairConf pairSaved pairFresh ⟨by decide, by decide⟩ run ?_ (by decide) ?_).mpr
    ⟨fun p _ => (by decide : (0 : Int) ≤ 3), fun p q hp hq same => ?_⟩⟩
  · decide
  · intro id hid
    obtain rfl | rfl : id = 0 ∨ id = 1 := by omega
    · exact ⟨first, check⟩
    · exact ⟨second, check'⟩
  · rcases owner hp with rfl | rfl
    · rcases owner hq with rfl | rfl
      · rfl
      · rw [zero, one] at same
        exact absurd same (by decide)
    · rcases owner hq with rfl | rfl
      · rw [zero, one] at same
        exact absurd same (by decide)
      · rfl

/-- The partitions on dimension 1 both own a weight `fc$`, and both get that of the file that is read last. -/
theorem split_not_restored : ∃ net s, NeuralNet.connectedTrain 1 = .ok net ∧
    restoreGroup pairCluster pairConf net (filesOf net pairSaved [0, 1]) pairFresh [0, 1] = .ok s ∧
      ¬ Restores pairConf net pairSaved s := by
  have all : (do
      let net ← NeuralNet.connectedTrain 1
      let s ← restoreGroup pairCluster pairConf net (filesOf net pairSaved [0, 1]) pairFresh [0, 1]
      .ok (net.layers.flatMap NetLayer.params, (net.params 0).owner, (net.params 0).id, (net.params 0).data,
        (s.heap 0).values)) =
      .ok ([0, 1, 2, 3], 0, 0, 0, [2, 2]) := by
    decide +kernel
  obtain ⟨net, run, all⟩ := Run.do_ok.mp all
  obtain ⟨s, restored, all⟩ := Run.do_ok.mp all
  simp only [Except.ok.injEq, Prod.mk.injEq] at all
  obtain ⟨params, owner, id, data, values⟩ := all
  refine ⟨net, s, run, restored, fun restores => ?_⟩
  have value := (restores 0 ⟨by simp [params], owner.trans id.symm⟩).1
  rw [data] at value
  rw [value] at values
  simp [target, data, pairSaved, Held.withVersion] at values

end Worker
end Singa
