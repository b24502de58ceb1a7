import Singa.Utils.Cluster

/-!
# `trainer/trainer.cc`: the workers and servers of a process

Every process creates its workers and servers by itself, from its id and the
sizes of groups and processes. A process has workers of one group, or several
whole groups of them; its servers are always taken from one group. Where these
ids agree with the table that `Cluster` keeps is what `placement_iff` says.
-/

namespace Singa
set_option autoImplicit false

/-- A worker or server: its thread, group and id. -/
structure Thread where
  threadId : Nat
  grpId : Nat
  id : Nat
  deriving DecidableEq, Repr

/-- Group and id. -/
def Thread.place (t : Thread) : Nat × Nat := (t.grpId, t.id)

/-- One thread for each group and id, numbered from `nthreads` on. -/
def newThreads (nthreads : Nat) (places : List (Nat × Nat)) : List Thread :=
  (places.zipIdx nthreads).map fun (place, threadId) => ⟨threadId, place.1, place.2⟩

theorem newThreads_place (nthreads : Nat) (places : List (Nat × Nat)) :
    (newThreads nthreads places).map Thread.place = places := by
  induction places generalizing nthreads with
  | nil => rfl
  | cons place places ih =>
    rw [newThreads, List.zipIdx_cons, List.map_cons, List.map_cons]
    exact congrArg (place :: ·) (ih (nthreads + 1))

namespace ClusterConf

variable (c : ClusterConf)

/-- `Cluster::has_server` in the process `pid`. -/
def hasServer (pid : Nat) : Run Bool :=
  if c.serverWorkerSeparate then
    if pid < c.nprocs then .ok (decide (c.nworkerProcs ≤ pid)) else .error .procsId
  else .ok (decide (pid < c.nserverProcs))

/-- `Cluster::has_worker` in the process `pid`. -/
def hasWorker (pid : Nat) : Bool := decide (pid < c.nworkerProcs)

/-- `Trainer::CreateServers` in the process `pid`. -/
def createServers (nthreads pid : Nat) : Run (List Thread) := do
  if ← c.hasServer pid then
    let pid := if c.serverWorkerSeparate then pid - c.nworkerProcs else pid
    let procsSize := c.nserversPerProcs
    let grpSize := c.nserversPerGroup
    let gid := pid * procsSize / grpSize
    let start := pid * procsSize % grpSize
    .ok (newThreads nthreads ((List.range' start procsSize).map (gid, ·)))
  else .ok []

/-- The workers with groups and ids in two ranges. -/
def workersIn (nthreads gstart ngroups wstart nworkers : Nat) : List Thread :=
  newThreads nthreads ((List.range' gstart ngroups).flatMap fun gid => (List.range' wstart nworkers).map (gid, ·))

/-- `Trainer::CreateWorkers` in the process `pid`. -/
def createWorkers (nthreads pid : Nat) : Run (List Thread) :=
  if c.hasWorker pid then
    let grpSize := c.nworkersPerGroup
    let procsSize := c.nworkersPerProcs
    if procsSize ≤ grpSize then
      -- all workers in this procs are from the same group
      .ok (workersIn nthreads (pid * procsSize / grpSize) 1 (pid * procsSize % grpSize) procsSize)
    else if procsSize % grpSize = 0 then
      -- there are multiple (complete) groups in this procs
      let groupsPerProcs := procsSize / grpSize
      .ok (workersIn nthreads (pid * groupsPerProcs) groupsPerProcs 0 grpSize)
    else .error .groupSize
  else .ok []

/-- No `CHECK` fails in any process. -/
def Passes : Prop := ∀ pid < c.nprocs, ∃ ws ss, c.createWorkers 0 pid = .ok ws ∧ c.createServers 0 pid = .ok ss

/-- A process creates, once each, the entities of a kind that the table of `Cluster` has for it. -/
def Creates (kind : EntityType) (pid : Nat) (created : Run (List Thread)) : Prop :=
  ∃ threads, created = .ok threads ∧ (threads.map Thread.place).Nodup ∧
    ∀ gid id, (gid, id) ∈ threads.map Thread.place ↔ c.IsEntity gid id kind ∧ c.processOf gid id kind = pid

/-- Every process creates the workers and servers that the table of `Cluster` says. -/
structure Placement : Prop where
  workers : ∀ pid < c.nprocs, ∀ nthreads, c.Creates .kWorkerParam pid (c.createWorkers nthreads pid)
  servers : ∀ pid < c.nprocs, ∀ nthreads, c.Creates .kServer pid (c.createServers nthreads pid)
  workerOnce : ∀ gid < c.nworkerGroups, ∀ id < c.nworkersPerGroup, ∃! pid, pid < c.nprocs ∧
    ∃ ws, c.createWorkers 0 pid = .ok ws ∧ (gid, id) ∈ ws.map Thread.place
  serverOnce : ∀ gid < c.nserverGroups, ∀ id < c.nserversPerGroup, ∃! pid, pid < c.nprocs ∧
    ∃ ss, c.createServers 0 pid = .ok ss ∧ (gid, id) ∈ ss.map Thread.place

/-! ## What a process creates -/

variable {c} {pid : Nat}

theorem nworkerProcs_mul (whole : c.nworkersPerProcs ∣ c.workers) :
    c.nworkerProcs * c.nworkersPerProcs = c.nworkerGroups * c.nworkersPerGroup :=
  Nat.div_mul_cancel whole

theorem nserverProcs_mul (whole : c.nserversPerProcs ∣ c.servers) :
    c.nserverProcs * c.nserversPerProcs = c.nserverGroups * c.nserversPerGroup :=
  Nat.div_mul_cancel whole

/-- Separate server processes start after the last worker's process. -/
theorem offset_eq (groups : 0 < c.nworkerGroups) (whole : c.nworkersPerProcs ∣ c.workers) :
    c.offset = if c.serverWorkerSeparate then c.nworkerProcs else 0 := by
  have last : (c.workers - 1) / c.nworkersPerProcs + 1 = c.nworkerProcs := by
    obtain ⟨k, total⟩ := whole
    have some : 0 < c.workers := Nat.mul_pos groups c.workersPerGroup_pos
    have pos := c.workersPerProcs_pos
    obtain ⟨k, rfl⟩ : ∃ m, k = m + 1 := Nat.exists_eq_succ_of_ne_zero fun zero => by simp [zero] at total; omega
    have before : c.workers - 1 = k * c.nworkersPerProcs + (c.nworkersPerProcs - 1) := by
      rw [total, Nat.mul_succ, Nat.mul_comm]
      omega
    have procs : c.nworkerProcs = c.workers / c.nworkersPerProcs := rfl
    rw [before, Grid.number_div (by omega), procs, total, Nat.mul_div_cancel_left _ pos]
  rw [offset, locateWorkers_eq, located, last]

/-- The server processes. -/
def ServerProc (c : ClusterConf) (pid : Nat) : Prop := c.offset ≤ pid ∧ pid - c.offset < c.nserverProcs

theorem createServers_of_proc (groups : 0 < c.nworkerGroups) (whole : c.nworkersPerProcs ∣ c.workers)
    (here : c.ServerProc pid) (nthreads : Nat) : c.createServers nthreads pid =
      .ok (newThreads nthreads
        (Grid.cells c.nserversPerGroup c.nserversPerProcs ((pid - c.offset) * c.nserversPerProcs))) := by
  obtain ⟨low, high⟩ := here
  have offset := offset_eq groups whole
  cases mode : c.serverWorkerSeparate with
  | true =>
    simp only [mode, if_true] at offset
    have inside : pid < c.nprocs := by
      simp only [nprocs, mode, if_true]
      omega
    have has : c.hasServer pid = .ok true := by
      simp only [hasServer, mode, inside, if_true, ← offset, low, decide_true]
    refine Run.do_ok.mpr ⟨true, has, ?_⟩
    simp only [mode, if_true, ← offset]
    rfl
  | false =>
    simp only [mode, Bool.false_eq_true, if_false] at offset
    have has : c.hasServer pid = .ok true := by
      have : pid < c.nserverProcs := by omega
      simp only [hasServer, mode, Bool.false_eq_true, if_false, this, decide_true]
    refine Run.do_ok.mpr ⟨true, has, ?_⟩
    simp only [mode, Bool.false_eq_true, if_false, if_true, offset, Nat.sub_zero]
    rfl

theorem createServers_of_not (groups : 0 < c.nworkerGroups) (whole : c.nworkersPerProcs ∣ c.workers)
    (lt : pid < c.nprocs) (away : ¬ c.ServerProc pid) (nthreads : Nat) : c.createServers nthreads pid = .ok [] := by
  have offset := offset_eq groups whole
  unfold ServerProc at away
  have has : c.hasServer pid = .ok false := by
    cases mode : c.serverWorkerSeparate with
    | true =>
      simp only [mode, if_true] at offset
      have before : ¬ c.nworkerProcs ≤ pid := by
        have total : c.nprocs = c.nworkerProcs + c.nserverProcs := by simp only [nprocs, mode, if_true]
        omega
      simp only [hasServer, mode, lt, before, if_true, decide_false]
    | false =>
      simp only [mode, Bool.false_eq_true, if_false] at offset
      have after : ¬ pid < c.nserverProcs := by omega
      simp only [hasServer, mode, Bool.false_eq_true, if_false, after, decide_false]
  exact Run.do_ok.mpr ⟨false, has, rfl⟩

/-- Workers of one group: a block of the numbered workers. -/
theorem createWorkers_block (here : pid < c.nworkerProcs) (le : c.nworkersPerProcs ≤ c.nworkersPerGroup)
    (nthreads : Nat) : c.createWorkers nthreads pid = .ok (newThreads nthreads
      (Grid.cells c.nworkersPerGroup c.nworkersPerProcs (pid * c.nworkersPerProcs))) := by
  simp only [createWorkers, hasWorker, here, decide_true, if_true, le, workersIn, Grid.cells, List.range'_one,
    List.flatMap_singleton]

/-- Whole groups. -/
theorem createWorkers_groups (here : pid < c.nworkerProcs) (lt : c.nworkersPerGroup < c.nworkersPerProcs)
    (whole : c.nworkersPerProcs % c.nworkersPerGroup = 0) (nthreads : Nat) : c.createWorkers nthreads pid =
      .ok (workersIn nthreads (pid * (c.nworkersPerProcs / c.nworkersPerGroup))
        (c.nworkersPerProcs / c.nworkersPerGroup) 0 c.nworkersPerGroup) := by
  simp only [createWorkers, hasWorker, here, decide_true, if_true, not_le.mpr lt, if_false, whole]

theorem createWorkers_away (away : ¬ pid < c.nworkerProcs) (nthreads : Nat) :
    c.createWorkers nthreads pid = .ok [] := by
  simp only [createWorkers, hasWorker, away, decide_false, Bool.false_eq_true, if_false]

theorem cells_nodup (n q k : Nat) : (Grid.cells n q k).Nodup :=
  (List.nodup_range').map fun _ _ same => (Prod.mk.inj same).2

/-- Whole groups are never cut apart. -/
theorem mem_groups_iff {gid id : Nat} (lt : pid < c.nworkerProcs) (fit : c.nworkersPerProcs % c.nworkersPerGroup = 0)
    (whole : c.nworkersPerProcs ∣ c.workers) :
    (gid, id) ∈ (List.range' (pid * (c.nworkersPerProcs / c.nworkersPerGroup))
        (c.nworkersPerProcs / c.nworkersPerGroup)).flatMap
          (fun gid => (List.range' 0 c.nworkersPerGroup).map (gid, ·)) ↔
      c.IsEntity gid id .kWorkerParam ∧ c.processOf gid id .kWorkerParam = pid := by
  have size : c.nworkersPerProcs / c.nworkersPerGroup * c.nworkersPerGroup = c.nworkersPerProcs :=
    Nat.div_mul_cancel (Nat.dvd_of_mod_eq_zero fit)
  have total := nworkerProcs_mul whole
  have pos := c.workersPerGroup_pos
  generalize c.nworkersPerProcs / c.nworkersPerGroup = k at size
  have first : pid * k * c.nworkersPerGroup = pid * c.nworkersPerProcs := by rw [Nat.mul_assoc, size]
  have next : (pid * k + k) * c.nworkersPerGroup = pid * c.nworkersPerProcs + c.nworkersPerProcs := by
    rw [Nat.add_mul, first, size]
  have member : (gid, id) ∈ (List.range' (pid * k) k).flatMap
      (fun gid => (List.range' 0 c.nworkersPerGroup).map (gid, ·)) ↔
      (pid * k ≤ gid ∧ gid < pid * k + k) ∧ id < c.nworkersPerGroup := by
    simp only [List.mem_flatMap, List.mem_map, List.mem_range'_1, Prod.mk.injEq, zero_le, Nat.zero_add, true_and]
    constructor
    · rintro ⟨_, row, _, column, rfl, rfl⟩
      exact ⟨row, column⟩
    · rintro ⟨row, column⟩
      exact ⟨gid, row, id, column, rfl, rfl⟩
  have block : c.processOf gid id .kWorkerParam = pid ↔ pid * c.nworkersPerProcs ≤ gid * c.nworkersPerGroup + id ∧
      gid * c.nworkersPerGroup + id < pid * c.nworkersPerProcs + c.nworkersPerProcs :=
    Grid.block_iff c.workersPerProcs_pos
  rw [member, block]
  constructor
  · rintro ⟨⟨low, high⟩, column⟩
    have lower := Nat.mul_le_mul_right c.nworkersPerGroup low
    have upper := Nat.mul_le_mul_right c.nworkersPerGroup (Nat.succ_le_of_lt high)
    rw [Nat.succ_mul] at upper
    refine ⟨⟨?_, column⟩, by omega, by omega⟩
    have last := Nat.mul_le_mul_right c.nworkersPerProcs (Nat.succ_le_of_lt lt)
    rw [Nat.succ_mul, total] at last
    apply Nat.lt_of_mul_lt_mul_right (a := c.nworkersPerGroup)
    omega
  · rintro ⟨⟨-, column⟩, low, high⟩
    refine ⟨⟨?_, ?_⟩, column⟩
    · have : pid * k * c.nworkersPerGroup < (gid + 1) * c.nworkersPerGroup := by
        rw [Nat.succ_mul]
        omega
      exact Nat.le_of_lt_succ (Nat.lt_of_mul_lt_mul_right this)
    · apply Nat.lt_of_mul_lt_mul_right (a := c.nworkersPerGroup)
      omega

/-! ## Agreement with the table -/

theorem creates_ok {kind : EntityType} {nthreads : Nat} {places : List (Nat × Nat)} (once : places.Nodup) :
    c.Creates kind pid (.ok (newThreads nthreads places)) ↔
      ∀ gid id, (gid, id) ∈ places ↔ c.IsEntity gid id kind ∧ c.processOf gid id kind = pid := by
  constructor
  · rintro ⟨threads, run, -, same⟩
    cases run
    rwa [newThreads_place] at same
  · intro same
    refine ⟨_, rfl, ?_⟩
    rw [newThreads_place]
    exact ⟨once, same⟩

theorem creates_nothing {kind : EntityType}
    (none : ∀ gid id, c.IsEntity gid id kind → c.processOf gid id kind ≠ pid) : c.Creates kind pid (.ok []) :=
  ⟨[], rfl, List.nodup_nil, fun gid id => ⟨by simp, fun ⟨entity, here⟩ => (none gid id entity here).elim⟩⟩

theorem nworkerProcs_le : c.nworkerProcs ≤ c.nprocs := by
  rw [nprocs]
  split
  · exact Nat.le_add_right _ _
  · exact Nat.le_max_left _ _

theorem serverProc_lt (groups : 0 < c.nworkerGroups) (whole : c.nworkersPerProcs ∣ c.workers)
    (here : c.ServerProc pid) : pid < c.nprocs := by
  obtain ⟨low, high⟩ := here
  rw [offset_eq groups whole] at low high
  rw [nprocs]
  split
  · simp only [*, if_true] at low high
    omega
  · simp only [*] at low high
    simp only [Bool.false_eq_true, if_false] at low high
    omega

theorem worker_proc {gid id : Nat} (whole : c.nworkersPerProcs ∣ c.workers)
    (entity : c.IsEntity gid id .kWorkerParam) : c.processOf gid id .kWorkerParam < c.nworkerProcs :=
  Grid.block_lt c.workersPerProcs_pos (nworkerProcs_mul whole) entity.1 entity.2

theorem server_proc {gid id : Nat} (whole : c.nserversPerProcs ∣ c.servers) (entity : c.IsEntity gid id .kServer) :
    c.ServerProc (c.processOf gid id .kServer) := by
  have lt := Grid.block_lt c.serversPerProcs_pos (nserverProcs_mul whole) entity.1 entity.2
  refine ⟨Nat.le_add_left _ _, ?_⟩
  rwa [processOf, Nat.add_sub_cancel]

/-- **Workers**: the table is met unless a process that is smaller than a group ends inside one. -/
theorem workers_iff (groups : 0 < c.nworkerGroups) (whole : c.nworkersPerProcs ∣ c.workers)
    (checks : ∀ pid < c.nprocs, ∃ ws, c.createWorkers 0 pid = .ok ws) :
    (∀ pid < c.nprocs, ∀ nthreads, c.Creates .kWorkerParam pid (c.createWorkers nthreads pid)) ↔
      (c.nworkersPerProcs ≤ c.nworkersPerGroup → c.nworkersPerProcs ∣ c.nworkersPerGroup) := by
  have total := nworkerProcs_mul whole
  have away (pid nthreads : Nat) (far : ¬ pid < c.nworkerProcs) :
      c.Creates .kWorkerParam pid (c.createWorkers nthreads pid) := by
    rw [createWorkers_away far]
    refine creates_nothing fun gid id entity here => far ?_
    rw [← here]
    exact worker_proc whole entity
  by_cases le : c.nworkersPerProcs ≤ c.nworkersPerGroup
  · rw [← Grid.aligned_iff c.workersPerProcs_pos c.workersPerGroup_pos total groups]
    have block (pid nthreads : Nat) (here : pid < c.nworkerProcs) :
        c.Creates .kWorkerParam pid (c.createWorkers nthreads pid) ↔
          pid * c.nworkersPerProcs % c.nworkersPerGroup + c.nworkersPerProcs ≤ c.nworkersPerGroup := by
      rw [createWorkers_block here le, creates_ok (cells_nodup _ _ _),
        ← Grid.cells_exact_iff c.workersPerProcs_pos total here]
      simp only [IsEntity, processOf, and_assoc]
    constructor
    · intro creates _ pid here
      exact (block pid 0 here).mp (creates pid (here.trans_le nworkerProcs_le) 0)
    · intro aligned pid _ nthreads
      by_cases here : pid < c.nworkerProcs
      · exact (block pid nthreads here).mpr (aligned le pid here)
      · exact away pid nthreads here
  · refine ⟨fun _ small => (le small).elim, fun _ pid lt nthreads => ?_⟩
    by_cases here : pid < c.nworkerProcs
    · -- the check that did not fail says that the groups are whole
      have fit : c.nworkersPerProcs % c.nworkersPerGroup = 0 := by
        by_contra rest
        obtain ⟨ws, run⟩ := checks pid lt
        simp only [createWorkers, hasWorker, here, decide_true, if_true, le, rest, if_false] at run
        cases run
      rw [createWorkers_groups here (not_le.mp le) fit, workersIn, creates_ok]
      · exact fun gid id => mem_groups_iff here fit whole
      · refine List.nodup_flatMap.mpr ⟨fun gid _ => ?_, ?_⟩
        · exact (List.nodup_range').map fun _ _ same => (Prod.mk.inj same).2
        · refine List.Pairwise.imp ?_ List.nodup_range'
          intro g g' different
          rw [Function.onFun, List.disjoint_left]
          rintro _ mem mem'
          obtain ⟨_, -, rfl⟩ := List.mem_map.mp mem
          obtain ⟨_, -, same⟩ := List.mem_map.mp mem'
          exact different (Prod.mk.inj same).1.symm
    · exact away pid nthreads here

/-- **Servers**: the table is met exactly when no process ends inside a group. -/
theorem servers_iff (groups : 0 < c.nworkerGroups) (serverGroups : 0 < c.nserverGroups)
    (wholeWorkers : c.nworkersPerProcs ∣ c.workers) (whole : c.nserversPerProcs ∣ c.servers) :
    (∀ pid < c.nprocs, ∀ nthreads, c.Creates .kServer pid (c.createServers nthreads pid)) ↔
      c.nserversPerProcs ∣ c.nserversPerGroup := by
  have total := nserverProcs_mul whole
  have block (pid nthreads : Nat) (here : c.ServerProc pid) :
      c.Creates .kServer pid (c.createServers nthreads pid) ↔
        (pid - c.offset) * c.nserversPerProcs % c.nserversPerGroup + c.nserversPerProcs ≤ c.nserversPerGroup := by
    have moved (gid id : Nat) : c.processOf gid id .kServer = pid ↔
        (gid * c.nserversPerGroup + id) / c.nserversPerProcs = pid - c.offset := by
      have := here.1
      rw [processOf]
      omega
    rw [createServers_of_proc groups wholeWorkers here, creates_ok (cells_nodup _ _ _),
      ← Grid.cells_exact_iff c.serversPerProcs_pos total here.2]
    simp only [IsEntity, moved, and_assoc]
  rw [← Grid.aligned_iff c.serversPerProcs_pos c.serversPerGroup_pos total serverGroups]
  constructor
  · intro creates p lt
    have here : c.ServerProc (p + c.offset) := ⟨Nat.le_add_left _ _, by rwa [Nat.add_sub_cancel]⟩
    have inside := (block _ 0 here).mp (creates _ (serverProc_lt groups wholeWorkers here) 0)
    rwa [Nat.add_sub_cancel] at inside
  · intro aligned pid lt nthreads
    by_cases here : c.ServerProc pid
    · exact (block pid nthreads here).mpr (aligned _ here.2)
    · rw [createServers_of_not groups wholeWorkers lt here]
      refine creates_nothing fun gid id entity same => here ?_
      rw [← same]
      exact server_proc whole entity

/-- Entities that are created as the table says are created once. -/
theorem Creates.once {kind : EntityType} {created : Nat → Run (List Thread)} {gid id : Nat}
    (creates : ∀ pid < c.nprocs, c.Creates kind pid (created pid)) (entity : c.IsEntity gid id kind)
    (lt : c.processOf gid id kind < c.nprocs) : ∃! pid, pid < c.nprocs ∧
      ∃ threads, created pid = .ok threads ∧ (gid, id) ∈ threads.map Thread.place := by
  obtain ⟨threads, run, -, same⟩ := creates _ lt
  refine ⟨_, ⟨lt, threads, run, (same gid id).mpr ⟨entity, rfl⟩⟩, ?_⟩
  rintro pid ⟨bound, threads', run', mem⟩
  obtain ⟨threads'', run'', -, same'⟩ := creates pid bound
  rw [run'] at run''
  cases run''
  exact ((same' gid id).mp mem).2.symm

/-- **Workers and servers are where the cluster map says exactly when no process ends inside a group.** -/
theorem placement_iff (c : ClusterConf) (groups : 0 < c.nworkerGroups) (serverGroups : 0 < c.nserverGroups)
    (wholeWorkers : c.nworkersPerProcs ∣ c.workers) (wholeServers : c.nserversPerProcs ∣ c.servers)
    (checks : c.Passes) : c.Placement ↔
      (c.nworkersPerProcs ≤ c.nworkersPerGroup → c.nworkersPerProcs ∣ c.nworkersPerGroup) ∧
        c.nserversPerProcs ∣ c.nserversPerGroup := by
  have workers := workers_iff groups wholeWorkers fun pid lt => by
    obtain ⟨ws, _, run, -⟩ := checks pid lt
    exact ⟨ws, run⟩
  have servers := servers_iff groups serverGroups wholeWorkers wholeServers
  constructor
  · intro placement
    exact ⟨workers.mp placement.workers, servers.mp placement.servers⟩
  · rintro ⟨fit, fitServers⟩
    have createsWorkers := workers.mpr fit
    have createsServers := servers.mpr fitServers
    refine ⟨createsWorkers, createsServers, fun gid row id column => ?_, fun gid row id column => ?_⟩
    · refine Creates.once (fun pid lt => createsWorkers pid lt 0) ⟨row, column⟩ ?_
      exact (worker_proc wholeWorkers ⟨row, column⟩).trans_le nworkerProcs_le
    · refine Creates.once (fun pid lt => createsServers pid lt 0) ⟨row, column⟩ ?_
      exact serverProc_lt groups wholeWorkers (server_proc wholeServers ⟨row, column⟩)

theorem twoByTwo_placement : twoByTwo.Placement := by
  refine (placement_iff twoByTwo (by decide) (by decide) (by decide) (by decide) ?_).mpr ⟨by decide, by decide⟩
  intro pid lt
  have only : pid = 0 := by
    have : twoByTwo.nprocs = 1 := by decide
    omega
  subst only
  exact ⟨_, _, rfl, rfl⟩

/-- Two groups of three workers, two workers in a process. -/
def straddling : ClusterConf :=
  { twoByTwo with nworkerGroups := 2, nworkersPerGroup := 3, workersPerGroup_pos := by decide }

/-- The second process creates a worker that is not there. -/
theorem straddling_not_placement : 0 < straddling.nworkerGroups ∧ 0 < straddling.nserverGroups ∧
    straddling.nworkersPerProcs ∣ straddling.workers ∧ straddling.nserversPerProcs ∣ straddling.servers ∧
    straddling.Passes ∧ ¬ straddling.Placement := by
  refine ⟨by decide, by decide, by decide, by decide, ?_, fun placement => ?_⟩
  · intro pid lt
    have few : pid < 3 := lt
    interval_cases pid
    all_goals exact ⟨_, _, rfl, rfl⟩
  · obtain ⟨threads, run, -, same⟩ := placement.workers 1 (by decide) 0
    have created : straddling.createWorkers 0 1 = .ok [⟨0, 0, 2⟩, ⟨1, 0, 3⟩] := by decide
    rw [created] at run
    cases run
    obtain ⟨⟨-, column⟩, -⟩ := (same 0 3).mp (by decide)
    exact absurd column (by decide)

end ClusterConf
end Singa
