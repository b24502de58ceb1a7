import Singa.Base.Grid
import Singa.Communication.Msg
import Singa.Utils.Param

/-!
# `utils/cluster.cc`: where workers and servers live

The constructor of `Cluster` walks over all workers and all servers and records
the process of each one in `procs_ids_`. Layer endpoints, param endpoints and
servers share one key space; `Hash` numbers the workers of a kind with the sizes
of the worker groups and the servers with those of the server groups. The
numbers of a configuration are unbounded here. In the source they are `int`s: the
keys of workers lie below `2 * nworkerGroups * nworkersPerGroup` (`hash_layer`)
and those of servers below `3 * nserverGroups * nserversPerGroup` (`hash_server`),
so these two products have to be less than 2³¹; process ids are smaller still.
-/

namespace Singa
set_option autoImplicit false

/-- The fields of `ClusterProto` that place workers and servers; no size that the source divides by is zero. -/
structure ClusterConf extends ClusterProto where
  nworkersPerProcs : Nat
  nserversPerProcs : Nat
  serverWorkerSeparate : Bool
  shareMemory : Bool
  workersPerGroup_pos : 0 < nworkersPerGroup
  serversPerGroup_pos : 0 < nserversPerGroup
  workersPerProcs_pos : 0 < nworkersPerProcs
  serversPerProcs_pos : 0 < nserversPerProcs

/-- The number of an `EntityType`. -/
def EntityType.number : EntityType → Nat
  | .kWorkerParam => 0
  | .kWorkerLayer => 1
  | .kServer => 2
  | .kStub => 3
  | .kRuntime => 4

namespace ClusterConf

/-- `procs_ids_`. -/
abbrev Table := Nat → Option Nat

variable (c : ClusterConf)

def nworkerProcs : Nat := c.nworkerGroups * c.nworkersPerGroup / c.nworkersPerProcs

def nserverProcs : Nat := c.nserverGroups * c.nserversPerGroup / c.nserversPerProcs

/-- `nprocs_`. -/
def nprocs : Nat :=
  if c.serverWorkerSeparate then c.nworkerProcs + c.nserverProcs else max c.nworkerProcs c.nserverProcs

/-- `Cluster::Hash`. -/
def hash (gid id : Nat) (flag : EntityType) : Nat :=
  if flag = .kServer then (flag.number * c.nserverGroups + gid) * c.nserversPerGroup + id
  else (flag.number * c.nworkerGroups + gid) * c.nworkersPerGroup + id

/-- The body of the constructor's first loop: `procs`, and the table with both endpoints of a worker. -/
def locateWorker (i : Nat) (s : Nat × Table) (j : Nat) : Nat × Table :=
  let procs := (i * c.nworkersPerGroup + j) / c.nworkersPerProcs
  let table := Function.update s.2 (c.hash i j .kWorkerLayer) (some procs)
  (procs, Function.update table (c.hash i j .kWorkerParam) (some procs))

/-- The constructor's first loop. -/
def locateWorkers : Nat × Table :=
  (List.range c.nworkerGroups).foldl (fun s i => (List.range c.nworkersPerGroup).foldl (c.locateWorker i) s)
    (0, fun _ => none)

/-- Server processes come after the worker processes if they are separate. -/
def offset : Nat := if c.serverWorkerSeparate then c.locateWorkers.1 + 1 else 0

/-- The body of the constructor's second loop. -/
def locateServer (i : Nat) (table : Table) (j : Nat) : Table :=
  Function.update table (c.hash i j .kServer)
    (some ((i * c.nserversPerGroup + j) / c.nserversPerProcs + c.offset))

/-- `procs_ids_` after the constructor. -/
def procsIds : Table :=
  (List.range c.nserverGroups).foldl (fun t i => (List.range c.nserversPerGroup).foldl (c.locateServer i) t)
    c.locateWorkers.2

/-- `Cluster::ProcsIDOf`; `none` where `at` throws. -/
def procsIdOf (gid id : Nat) (flag : EntityType) : Option Nat := c.procsIds (c.hash gid id flag)

/-! ## The table -/

def workers : Nat := c.nworkerGroups * c.nworkersPerGroup

def servers : Nat := c.nserverGroups * c.nserversPerGroup

theorem hash_param (i j : Nat) : c.hash i j .kWorkerParam = i * c.nworkersPerGroup + j := by
  simp [hash, EntityType.number]

theorem hash_layer (i j : Nat) : c.hash i j .kWorkerLayer = c.workers + (i * c.nworkersPerGroup + j) := by
  simp only [hash, EntityType.number, workers, reduceCtorEq, if_false]
  ring

theorem hash_server (i j : Nat) : c.hash i j .kServer = 2 * c.servers + (i * c.nserversPerGroup + j) := by
  simp only [hash, EntityType.number, servers, if_true]
  ring

/-- The first loop after `m` workers. -/
def located (m : Nat) : Nat × Table :=
  ((m - 1) / c.nworkersPerProcs, fun k =>
    if k < m then some (k / c.nworkersPerProcs)
    else if c.workers ≤ k ∧ k < c.workers + m then some ((k - c.workers) / c.nworkersPerProcs) else none)

theorem locateWorker_located {k : Nat} (lt : k < c.workers) :
    c.locateWorker (k / c.nworkersPerGroup) (c.located k) (k % c.nworkersPerGroup) = c.located (k + 1) := by
  obtain ⟨number, -⟩ := Grid.cell_of_number k c.workersPerGroup_pos
  rw [locateWorker, hash_param, hash_layer, number]
  refine Prod.ext (by simp [located]) (funext fun key => ?_)
  simp only [located, Function.update_apply]
  by_cases param : key = k
  · subst param
    simp
  · by_cases layer : key = c.workers + k
    · subst layer
      have notParam : ¬ c.workers + k < k + 1 := by omega
      simp [notParam]
    · have below : key < k + 1 ↔ key < k := by omega
      have between : key < c.workers + (k + 1) ↔ key < c.workers + k := by omega
      simp [param, layer, below, between]

/-- The constructor's first loop in closed form. -/
theorem locateWorkers_eq : c.locateWorkers = c.located c.workers := by
  have start : (0, fun _ => none) = c.located 0 := by
    refine Prod.ext (by simp [located]) (funext fun k => ?_)
    have none : ¬ (c.workers ≤ k ∧ k < c.workers + 0) := by omega
    simp only [located, none, not_lt_zero, if_false]
  rw [locateWorkers, start, Grid.foldl_cells]
  exact Grid.foldl_range_eq _ c.located c.workers fun k lt => c.locateWorker_located lt

/-- **`procs_ids_`**: a server's entry is the last one written under its key. -/
theorem procsIds_eq (k : Nat) : c.procsIds k =
    if 2 * c.servers ≤ k ∧ k < 2 * c.servers + c.servers
    then some ((k - 2 * c.servers) / c.nserversPerProcs + c.offset) else (c.located c.workers).2 k := by
  let table (m k : Nat) : Option Nat :=
    if 2 * c.servers ≤ k ∧ k < 2 * c.servers + m
    then some ((k - 2 * c.servers) / c.nserversPerProcs + c.offset) else (c.located c.workers).2 k
  have start : (c.located c.workers).2 = table 0 := by
    funext k
    have none : ¬ (2 * c.servers ≤ k ∧ k < 2 * c.servers + 0) := by omega
    simp only [table, none, if_false]
  have pass : ∀ m < c.servers,
      c.locateServer (m / c.nserversPerGroup) (table m) (m % c.nserversPerGroup) = table (m + 1) := by
    intro m _
    obtain ⟨number, -⟩ := Grid.cell_of_number m c.serversPerGroup_pos
    funext k
    rw [locateServer, hash_server, number, Function.update_apply]
    by_cases here : k = 2 * c.servers + m
    · subst here
      simp [table]
    · have between : k < 2 * c.servers + (m + 1) ↔ k < 2 * c.servers + m ∨ k = 2 * c.servers + m := by omega
      simp [table, here, between]
  have filled := Grid.foldl_range_eq
    (fun t m => c.locateServer (m / c.nserversPerGroup) t (m % c.nserversPerGroup)) table c.servers pass
  rw [← start] at filled
  rw [procsIds, locateWorkers_eq, Grid.foldl_cells]
  exact congrFun filled k

/-! ## Lookups -/

/-- Is there such a worker or server? -/
def IsEntity (gid id : Nat) : EntityType → Prop
  | .kWorkerParam | .kWorkerLayer => gid < c.nworkerGroups ∧ id < c.nworkersPerGroup
  | .kServer => gid < c.nserverGroups ∧ id < c.nserversPerGroup
  | .kStub | .kRuntime => False

/-- The process that the constructor computes for a worker or server. -/
def processOf (gid id : Nat) : EntityType → Nat
  | .kServer => (gid * c.nserversPerGroup + id) / c.nserversPerProcs + c.offset
  | _ => (gid * c.nworkersPerGroup + id) / c.nworkersPerProcs

/-- Every worker and server is found in its own process, and no two of them have the same key. -/
structure Lookups : Prop where
  right : ∀ gid id flag, c.IsEntity gid id flag → c.procsIdOf gid id flag = some (c.processOf gid id flag)
  apart : ∀ gid id flag gid' id' flag', c.IsEntity gid id flag → c.IsEntity gid' id' flag' →
    c.hash gid id flag = c.hash gid' id' flag' → gid = gid' ∧ id = id' ∧ flag = flag'

variable {c} {gid id : Nat}

theorem worker_lt (h : gid < c.nworkerGroups ∧ id < c.nworkersPerGroup) : gid * c.nworkersPerGroup + id < c.workers :=
  Grid.number_lt h.1 h.2

theorem server_lt (h : gid < c.nserverGroups ∧ id < c.nserversPerGroup) : gid * c.nserversPerGroup + id < c.servers :=
  Grid.number_lt h.1 h.2

/-- The keys of the workers end where those of the servers begin. -/
theorem lookups_of_le (le : c.workers ≤ c.servers) : c.Lookups := by
  refine ⟨fun gid id flag entity => ?_, fun gid id flag gid' id' flag' entity entity' same => ?_⟩
  · rw [procsIdOf, procsIds_eq]
    cases flag with
    | kWorkerParam =>
      have lt := worker_lt entity
      have notServer : ¬ 2 * c.servers ≤ gid * c.nworkersPerGroup + id := by omega
      simp [hash_param, located, processOf, lt, notServer]
    | kWorkerLayer =>
      have lt := worker_lt entity
      have notServer : ¬ 2 * c.servers ≤ c.workers + (gid * c.nworkersPerGroup + id) := by omega
      simp [hash_layer, located, processOf, lt, notServer]
    | kServer =>
      have lt := server_lt entity
      simp [hash_server, processOf, lt]
    | kStub | kRuntime => exact entity.elim
  · cases flag <;> cases flag' <;> first | exact entity.elim | exact entity'.elim | skip
    all_goals simp only [hash_param, hash_layer, hash_server] at same
    case kWorkerParam.kWorkerParam =>
      obtain ⟨rows, columns⟩ := Grid.number_inj entity.2 entity'.2 same
      exact ⟨rows, columns, rfl⟩
    case kWorkerLayer.kWorkerLayer =>
      obtain ⟨rows, columns⟩ := Grid.number_inj entity.2 entity'.2 (Nat.add_left_cancel same)
      exact ⟨rows, columns, rfl⟩
    case kServer.kServer =>
      obtain ⟨rows, columns⟩ := Grid.number_inj entity.2 entity'.2 (Nat.add_left_cancel same)
      exact ⟨rows, columns, rfl⟩
    case kWorkerParam.kWorkerLayer =>
      have := worker_lt entity
      omega
    case kWorkerLayer.kWorkerParam =>
      have := worker_lt entity'
      omega
    case kWorkerParam.kServer | kWorkerLayer.kServer =>
      have := worker_lt entity
      omega
    case kServer.kWorkerParam | kServer.kWorkerLayer =>
      have := worker_lt entity'
      omega

/-- With fewer servers than workers the first server has the key of a worker. -/
theorem exists_collision (lt : c.servers < c.workers) :
    ∃ gid id flag, flag ≠ .kServer ∧ c.IsEntity gid id flag ∧ c.hash gid id flag = c.hash 0 0 .kServer := by
  by_cases low : 2 * c.servers < c.workers
  · obtain ⟨number, column⟩ := Grid.cell_of_number (2 * c.servers) c.workersPerGroup_pos
    refine ⟨_, _, .kWorkerParam, by decide, ⟨Grid.row_lt low, column⟩, ?_⟩
    rw [hash_param, hash_server, number]
    omega
  · obtain ⟨number, column⟩ := Grid.cell_of_number (2 * c.servers - c.workers) c.workersPerGroup_pos
    have below : 2 * c.servers - c.workers < c.workers := by omega
    refine ⟨_, _, .kWorkerLayer, by decide, ⟨Grid.row_lt below, column⟩, ?_⟩
    rw [hash_layer, hash_server, number]
    omega

/-- **The process table is right exactly when there are at least as many servers as workers.** -/
theorem lookups_iff (c : ClusterConf) (groups : 0 < c.nserverGroups) : c.Lookups ↔ c.workers ≤ c.servers := by
  constructor
  · intro lookups
    by_contra more
    obtain ⟨gid, id, flag, kind, entity, same⟩ := exists_collision (not_le.mp more)
    have first : c.IsEntity 0 0 .kServer := ⟨groups, c.serversPerGroup_pos⟩
    obtain ⟨-, -, flags⟩ := lookups.apart _ _ _ _ _ _ entity first same
    exact kind flags
  · exact lookups_of_le

/-- Two workers and two servers in one process. -/
def twoByTwo : ClusterConf where
  nworkerGroups := 1
  nserverGroups := 1
  nworkersPerGroup := 2
  nserversPerGroup := 2
  nworkersPerProcs := 2
  nserversPerProcs := 2
  serverWorkerSeparate := false
  shareMemory := true
  workersPerGroup_pos := by decide
  serversPerGroup_pos := by decide
  workersPerProcs_pos := by decide
  serversPerProcs_pos := by decide

theorem lookups_twoByTwo : twoByTwo.Lookups := (lookups_iff twoByTwo (by decide)).mpr (by decide)

/-- Two workers in one process, and one server in a process of its own. -/
def twoByOne : ClusterConf :=
  { twoByTwo with
    nserversPerGroup := 1, nserversPerProcs := 1, serverWorkerSeparate := true
    serversPerGroup_pos := by decide, serversPerProcs_pos := by decide }

/-- The layer endpoint of the first worker is looked up in the server's process. -/
theorem twoByOne_lookup : twoByOne.IsEntity 0 0 .kWorkerLayer ∧ twoByOne.processOf 0 0 .kWorkerLayer = 0 ∧
    twoByOne.procsIdOf 0 0 .kWorkerLayer = some 1 ∧ ¬ twoByOne.Lookups := by
  have wrong : twoByOne.procsIdOf 0 0 .kWorkerLayer = some 1 := by decide
  refine ⟨⟨by decide, by decide⟩, by decide, wrong, fun lookups => ?_⟩
  have right := lookups.right 0 0 .kWorkerLayer ⟨by decide, by decide⟩
  rw [wrong] at right
  exact absurd right (by decide)

end ClusterConf
end Singa
