import Singa.Neuralnet.Net
import Singa.Trainer.Placement
import Singa.Trainer.SliceParams

/-!
# `trainer/trainer.cc`: the nets of the workers

`SetupWorkerServer` gives every worker its nets. A net is known by its number
among those that were created, the first one being `net`. The branch for a
worker of the group before it takes `net` again, also where that group is not
the first one.
-/

namespace Singa
set_option autoImplicit false

/-- The fields of `ModelProto` that the setup reads. -/
structure ModelConf where
  neuralnet : NetProto
  testSteps : Nat := 0
  validationSteps : Nat := 0

/-- What the nets are created from; the layers' shapes, the blobs and the order of the hash maps belong
to the net that is created. -/
structure NetSource where
  fuel : Nat
  factory : Factory
  iterate : Nat → List String → List String
  shape : Nat → Nat → Nat → List Nat
  base : Nat → Nat

/-- `NeuralNet::Create`, after the nets `nets`. -/
def NetSource.create (src : NetSource) (nets : List Net) (conf : NetProto) (phase : Phase) (npartitions : Nat) :
    Run Net :=
  NeuralNet.create src.fuel src.factory (src.iterate nets.length) (src.shape nets.length) (src.base nets.length)
    conf phase npartitions

/-- A param of a net for `SliceParams`; its gradient and its requests are not looked at. -/
def NetParam.view (p : NetParam) : Param Unit where
  localVersion := -1
  sliceStart := p.slices.sliceStart
  numSlices := p.slices.numSlices
  sliceOffset := p.slices.sliceOffset
  sliceSize := p.slices.sliceSize
  pendingPut := p.slices.pendingPut
  pendingGet := p.slices.pendingGet
  pendingUpdate := p.slices.pendingUpdate
  numPendingRequests := 0
  data := ⟨p.shape.prod, -1, ⟨p.data, 0⟩⟩
  grad := ⟨p.shape.prod, -1, ⟨p.data, 0⟩⟩
  history := []
  proto := ⟨p.id, p.owner, (), ()⟩

/-- The slice tables of `q`. -/
def NetParam.sliced (p : NetParam) (q : Param Unit) : NetParam :=
  { p with
    slices := ⟨q.sliceStart, q.numSlices, q.sliceOffset, q.sliceSize, q.pendingGet, q.pendingPut, q.pendingUpdate⟩ }

/-- `SliceParams(net->params())`. -/
def sliceNet (fuel : Nat) (cluster : ClusterProto) (net : Net) : Run (Net × List Nat) := do
  let ids := net.layers.flatMap NetLayer.params
  let (params, slices) ← sliceParams fuel cluster (ids.map fun id => (net.params id).view)
  let params := (ids.zip params).foldl (fun all e => Function.update all e.1 ((all e.1).sliced e.2)) net.params
  .ok ({ net with params }, slices)

/-- A worker after `Worker::Setup`: the numbers of its nets. -/
structure WorkerNets where
  worker : Thread
  trainNet : Option Nat
  validationNet : Option Nat
  testNet : Option Nat
  deriving DecidableEq, Repr

/-- A `ParamEntry` of the worker shard; a share is a net and an id. -/
structure ShardEntry where
  numLocal : Nat := 0
  numTotal : Nat := 0
  shares : List (Nat × Nat) := []
  deriving DecidableEq, Repr

/-- `ParamEntry::AddParam`. -/
def ShardEntry.addParam (entry : ShardEntry) (isLocal : Bool) (p : Nat × Nat) : ShardEntry where
  numLocal := entry.numLocal + isLocal.toNat
  numTotal := entry.numTotal + 1
  shares := if isLocal then entry.shares ++ [p] else entry.shares

abbrev WorkerShard := Int → Option ShardEntry

/-- `Trainer::Hash`. -/
def shardHash (grpId : Int) (paramId : Nat) : Int := grpId * 997 + paramId

/-- The loop over the layers of a net that prepares the entries of the group `grp`. -/
def prepareEntries (front back : Nat) (grp : Int) (number : Nat) (net : Net) (shard : WorkerShard) : WorkerShard :=
  net.layers.foldl (fun shard layer =>
    let isLocal := decide ((front : Int) ≤ layer.proto.partitionId ∧ layer.proto.partitionId ≤ (back : Int))
    layer.params.foldl (fun shard p =>
      let hash := shardHash grp (net.params p).owner
      Function.update shard hash (some (((shard hash).getD {}).addParam isLocal (number, p)))) shard) shard

/-- The variables of `SetupWorkerServer`; `nets` are the nets made so far, `net` at their front. -/
structure SetupState where
  nets : List Net
  grp : Int
  trainNet : Option Nat := none
  testNet : Option Nat := none
  validNet : Option Nat := none
  prepareParam : Bool := true
  workerShard : WorkerShard := fun _ => none
  workers : List WorkerNets := []

/-- `if (share) fresh->ShareParamsFrom(net)`. -/
def shareWhen (share : Bool) (fresh net : Net) : Run Net :=
  if share then NeuralNet.shareParamsFrom fresh net else .ok fresh

namespace ClusterConf

variable (c : ClusterConf)

/-- A net that shares the params of `net`. -/
def sharedNet (src : NetSource) (conf : NetProto) (phase : Phase) (share : Bool) (nets : List Net) : Run (List Net) := do
  let fresh ← src.create nets conf phase c.nworkersPerGroup
  match nets with
  | [] => .error .range
  | net :: _ =>
    let fresh ← shareWhen share fresh net
    .ok (nets ++ [fresh])

/-- The test net, of the first group only. -/
def addTestNet (src : NetSource) (model : ModelConf) (s : SetupState) : Run SetupState :=
  if s.grp = 0 ∧ model.testSteps ≠ 0 then do
    let nets ← c.sharedNet src model.neuralnet .kTest true s.nets
    .ok { s with nets, testNet := some s.nets.length }
  else .ok s

/-- The validation net, of the first group only. -/
def addValidNet (src : NetSource) (model : ModelConf) (s : SetupState) : Run SetupState :=
  if s.grp = 0 ∧ model.validationSteps ≠ 0 then do
    let nets ← c.sharedNet src model.neuralnet .kValidation true s.nets
    .ok { s with nets, validNet := some s.nets.length }
  else .ok s

/-- The branch at the start of a pass of the loop over the workers. -/
def trainNetOf (src : NetSource) (model : ModelConf) (s : SetupState) (worker : Thread) : Run SetupState :=
  if (worker.grpId : Int) ≠ s.grp then do
    let nets ← c.sharedNet src model.neuralnet .kTrain c.shareMemory s.nets
    .ok { s with
      nets, trainNet := some s.nets.length, validNet := none, testNet := none, grp := worker.grpId, prepareParam := true }
  else .ok { s with trainNet := some 0 }

/-- `worker->Setup` and the entries of the worker's group, once for each. -/
def setupWorker (front back : Nat) (s : SetupState) (worker : Thread) : SetupState :=
  let s : SetupState := { s with workers := s.workers ++ [⟨worker, s.trainNet, s.validNet, s.testNet⟩] }
  match s.prepareParam, s.trainNet.bind fun number => (s.nets[number]?).map (number, ·) with
  | true, some (number, net) =>
    { s with
      workerShard := prepareEntries front back s.grp number net s.workerShard
      prepareParam := false }
  | _, _ => s

/-- `Trainer::SetupWorkerServer`, as far as the workers go. -/
def setupWorkers (src : NetSource) (model : ModelConf) (workers : List Thread) : Run (SetupState × List Nat) := do
  let net ← src.create [] model.neuralnet .kTrain c.nworkersPerGroup
  let (net, slices) ← sliceNet src.fuel c.toClusterProto net
  let s ← c.addTestNet src model { nets := [net], grp := (workers.head?.map fun w => (w.grpId : Int)).getD (-1) }
  let s ← c.addValidNet src model s
  let front := (workers.head?.map Thread.id).getD 0
  let back := (workers.getLast?.map Thread.id).getD 0
  let s ← workers.foldlM (fun s worker => do
    let s ← c.trainNetOf src model s worker
    .ok (setupWorker front back s worker)) s
  .ok (s, slices)

/-- The net with the given number, of a group other than the first, when the first net is `net`. -/
def laterNet (src : NetSource) (model : ModelConf) (number : Nat) (net : Net) : Run Net := do
  let fresh ← NeuralNet.create src.fuel src.factory (src.iterate number) (src.shape number) (src.base number)
    model.neuralnet .kTrain c.nworkersPerGroup
  shareWhen c.shareMemory fresh net

end ClusterConf

/-- Workers have one train net exactly when they are of one group, and only group 0 tests and validates. -/
structure TrainTogether (workers : List WorkerNets) : Prop where
  train : ∀ w ∈ workers, ∀ w' ∈ workers, w.trainNet = w'.trainNet ↔ w.worker.grpId = w'.worker.grpId
  test : ∀ w ∈ workers, w.worker.grpId ≠ 0 → w.testNet = none ∧ w.validationNet = none

/-! ## The loop over the workers -/

/-- The train nets of workers of the given groups, the worker before them being of the group `prev` and
`next` the number of the next net. -/
def assignNets (prev : Int) (next : Nat) : List Nat → List (Nat × Nat)
  | [] => []
  | grp :: rest =>
    if (grp : Int) ≠ prev then (grp, next) :: assignNets grp (next + 1) rest
    else (grp, 0) :: assignNets prev next rest

namespace ClusterConf

variable {c : ClusterConf} {src : NetSource} {model : ModelConf} {s s' : SetupState} {front back : Nat}

/-- A net that shares the params of the first one is added to the nets. -/
theorem sharedNet_append {conf : NetProto} {phase : Phase} {share : Bool} {nets nets' : List Net}
    (h : c.sharedNet src conf phase share nets = .ok nets') : ∃ fresh, nets' = nets ++ [fresh] := by
  obtain ⟨fresh, -, h⟩ := Run.do_ok.mp h
  cases nets with
  | nil => cases h
  | cons net rest =>
    obtain ⟨last, -, h⟩ := Run.do_ok.mp h
    cases h
    exact ⟨last, rfl⟩

theorem sharedNet_length {conf : NetProto} {phase : Phase} {share : Bool} {nets nets' : List Net}
    (h : c.sharedNet src conf phase share nets = .ok nets') : nets'.length = nets.length + 1 := by
  obtain ⟨fresh, rfl⟩ := sharedNet_append h
  rw [List.length_append, List.length_singleton]

/-- The branch at the start of a pass: a worker of another group gets a net of its own, and the entries of its
group are to be prepared. -/
theorem trainNetOf_cases {worker : Thread} (branch : c.trainNetOf src model s worker = .ok s') :
    (s.grp ≠ worker.grpId ∧ ∃ net rest fresh, s.nets = net :: rest ∧
      c.laterNet src model s.nets.length net = .ok fresh ∧ s' = { s with
        nets := s.nets ++ [fresh], trainNet := some s.nets.length, validNet := none, testNet := none
        grp := worker.grpId, prepareParam := true }) ∨
    (s.grp = worker.grpId ∧ s' = { s with trainNet := some 0 }) := by
  rw [trainNetOf] at branch
  split at branch
  · rename_i other
    obtain ⟨nets', shared, branch⟩ := Run.do_ok.mp branch
    obtain ⟨fresh, made, shared⟩ := Run.do_ok.mp shared
    refine .inl ⟨Ne.symm other, ?_⟩
    cases nets : s.nets with
    | nil =>
      rw [nets] at shared
      cases shared
    | cons net rest =>
      rw [nets] at shared made
      obtain ⟨last, share, shared⟩ := Run.do_ok.mp shared
      cases shared
      cases branch
      rw [nets]
      exact ⟨net, rest, last, rfl, Run.do_ok.mpr ⟨fresh, made, share⟩, rfl⟩
  · rename_i same
    cases branch
    exact .inr ⟨(not_not.mp same).symm, rfl⟩

/-- What the setup of one worker leaves. -/
theorem setupWorker_eq (front back : Nat) (s : SetupState) (worker : Thread) :
    (setupWorker front back s worker).workers = s.workers ++ [⟨worker, s.trainNet, s.validNet, s.testNet⟩] ∧
      (setupWorker front back s worker).nets = s.nets ∧ (setupWorker front back s worker).grp = s.grp ∧
      (setupWorker front back s worker).testNet = s.testNet ∧
      (setupWorker front back s worker).validNet = s.validNet := by
  unfold setupWorker
  dsimp only
  split
  · exact ⟨rfl, rfl, rfl, rfl, rfl⟩
  · exact ⟨rfl, rfl, rfl, rfl, rfl⟩

/-- The train nets are those of `assignNets`. -/
theorem setup_assign {workers : List Thread}
    (run : workers.foldlM (fun s worker => do
      let s ← c.trainNetOf src model s worker
      .ok (setupWorker front back s worker)) s = .ok s') :
    s'.workers.map (fun w => (w.worker.grpId, w.trainNet)) = s.workers.map (fun w => (w.worker.grpId, w.trainNet)) ++
      (assignNets s.grp s.nets.length (workers.map Thread.grpId)).map fun e => (e.1, some e.2) := by
  induction workers generalizing s with
  | nil =>
    cases run
    simp [assignNets]
  | cons worker workers ih =>
    rw [List.foldlM_cons] at run
    obtain ⟨next, pass, run⟩ := Run.do_ok.mp run
    obtain ⟨before, branch, pass⟩ := Run.do_ok.mp pass
    cases pass
    obtain ⟨added, nets, grp, -, -⟩ := setupWorker_eq front back before worker
    rw [ih run, added, nets, grp, List.map_append, List.append_assoc, List.map_cons (f := Thread.grpId), assignNets]
    rcases trainNetOf_cases branch with ⟨other, net, rest, fresh, -, -, rfl⟩ | ⟨same, rfl⟩
    · rw [if_pos (Ne.symm other), List.length_append, List.length_singleton]
      rfl
    · rw [if_neg (not_not.mpr same.symm)]
      rfl

/-- Only the first group has test nets, and only if it is group 0. -/
structure TestsFirst (s : SetupState) : Prop where
  here : s.grp ≠ 0 → s.testNet = none ∧ s.validNet = none
  workers : ∀ w ∈ s.workers, w.worker.grpId ≠ 0 → w.testNet = none ∧ w.validationNet = none

theorem setup_tests {workers : List Thread} (inv : TestsFirst s)
    (run : workers.foldlM (fun s worker => do
      let s ← c.trainNetOf src model s worker
      .ok (setupWorker front back s worker)) s = .ok s') : TestsFirst s' := by
  refine Run.foldlM_inv (fun _ s => TestsFirst s) (fun done worker s s' inv pass => ?_) inv run
  obtain ⟨before, branch, pass⟩ := Run.do_ok.mp pass
  cases pass
  obtain ⟨added, -, grp, test, valid⟩ := setupWorker_eq front back before worker
  have here : TestsFirst before ∧ before.grp = worker.grpId := by
    rcases trainNetOf_cases branch with ⟨-, net, rest, fresh, -, -, rfl⟩ | ⟨same, rfl⟩
    · exact ⟨⟨fun _ => ⟨rfl, rfl⟩, inv.workers⟩, rfl⟩
    · exact ⟨⟨inv.here, inv.workers⟩, same⟩
  obtain ⟨kept, own⟩ := here
  refine ⟨?_, fun w hw other => ?_⟩
  · rw [grp, test, valid]
    exact kept.here
  · rw [added] at hw
    rcases List.mem_append.mp hw with hw | hw
    · exact kept.workers w hw other
    · obtain rfl := List.mem_singleton.mp hw
      exact kept.here (by rw [own]; exact_mod_cast other)

/-! ## The train nets of whole groups -/

theorem assignNets_replicate (next m grp : Nat) (rest : List Nat) :
    assignNets grp next (List.replicate m grp ++ rest) = List.replicate m (grp, 0) ++ assignNets grp next rest := by
  induction m with
  | zero => rfl
  | succ m ih =>
    rw [List.replicate_succ, List.replicate_succ, List.cons_append, List.cons_append, assignNets, if_neg (by simp), ih]

/-- Workers of one group share the first net. -/
theorem assignNets_one (next m grp : Nat) : assignNets grp next (List.replicate m grp) = List.replicate m (grp, 0) := by
  have all := assignNets_replicate next m grp []
  rwa [List.append_nil, assignNets, List.append_nil] at all

/-- Groups of one worker have a net each. -/
theorem assignNets_singles (first next k : Nat) : assignNets first next ((List.range' (first + 1) k)) =
    (List.range' (first + 1) k).zip (List.range' next k) := by
  induction k generalizing first next with
  | zero => rfl
  | succ k ih =>
    rw [List.range'_succ, List.range'_succ, assignNets, if_pos (by simp), List.zip_cons_cons, ih (first + 1)]

/-- Where groups have two workers or more, the second worker of the second group has the first net, too. -/
theorem assignNets_pairs (first next k m : Nat) : ∃ e ∈ assignNets first next
      ((List.range' first (k + 2)).flatMap (List.replicate (m + 2))),
    ∃ e' ∈ assignNets first next ((List.range' first (k + 2)).flatMap (List.replicate (m + 2))),
      e.2 = e'.2 ∧ e.1 ≠ e'.1 := by
  rw [List.range'_succ, List.range'_succ, List.flatMap_cons, List.flatMap_cons, assignNets_replicate]
  refine ⟨(first, 0), ?_, (first + 1, 0), ?_, rfl, by simp⟩
  · simp [List.replicate_succ]
  · refine List.mem_append_right _ ?_
    rw [List.replicate_succ, List.cons_append, assignNets, if_pos (by simp), assignNets_replicate]
    simp [List.replicate_succ]

/-- What the loop over the workers starts from. -/
theorem testNets_ok {mid : SetupState} (nets : 1 ≤ s.nets.length) (workers : s.workers = []) (test : s.testNet = none)
    (valid : s.validNet = none) (first : c.addTestNet src model s = .ok mid)
    (second : c.addValidNet src model mid = .ok s') :
    1 ≤ s'.nets.length ∧ s'.grp = s.grp ∧ s'.workers = [] ∧ TestsFirst s' := by
  have firstOk : 1 ≤ mid.nets.length ∧ mid.grp = s.grp ∧ mid.workers = [] ∧ mid.validNet = none ∧
      (mid.grp ≠ 0 → mid.testNet = none) := by
    rw [addTestNet] at first
    split at first
    · rename_i cond
      obtain ⟨nets', made, first⟩ := Run.do_ok.mp first
      cases first
      exact ⟨by simp [sharedNet_length made], rfl, workers, valid, fun other => absurd cond.1 other⟩
    · cases first
      exact ⟨nets, rfl, workers, valid, fun _ => test⟩
  obtain ⟨nets, grp, workers, valid, test⟩ := firstOk
  rw [addValidNet] at second
  split at second
  · rename_i cond
    obtain ⟨nets', made, second⟩ := Run.do_ok.mp second
    cases second
    exact ⟨by simp [sharedNet_length made], grp, workers, fun other => absurd cond.1 other, by simp [workers]⟩
  · cases second
    exact ⟨nets, grp, workers, fun other => ⟨test other, valid⟩, by simp [workers]⟩

/-- Pairs from two lists without repetitions. -/
theorem zip_inj {l m : List Nat} (nodupL : l.Nodup) (nodupM : m.Nodup) {e e' : Nat × Nat} (he : e ∈ l.zip m)
    (he' : e' ∈ l.zip m) : e.2 = e'.2 ↔ e.1 = e'.1 := by
  obtain ⟨i, hi⟩ := List.mem_iff_getElem?.mp he
  obtain ⟨j, hj⟩ := List.mem_iff_getElem?.mp he'
  obtain ⟨li, mi⟩ := List.getElem?_zip_eq_some.mp hi
  obtain ⟨lj, mj⟩ := List.getElem?_zip_eq_some.mp hj
  constructor
  · intro same
    have index : i = j := (List.getElem?_inj (List.getElem?_eq_some_iff.mp mi).1 nodupM).mp (by rw [mi, mj, same])
    rw [index, lj] at li
    exact (Option.some.inj li).symm
  · intro same
    have index : i = j := (List.getElem?_inj (List.getElem?_eq_some_iff.mp li).1 nodupL).mp (by rw [li, lj, same])
    rw [index, mj] at mi
    exact (Option.some.inj mi).symm

/-- The groups of the workers of a process. -/
theorem workersIn_groups (nthreads gstart ngroups wstart nworkers : Nat) :
    (workersIn nthreads gstart ngroups wstart nworkers).map Thread.grpId =
      (List.range' gstart ngroups).flatMap (List.replicate nworkers) := by
  have places := congrArg (List.map Prod.fst) (newThreads_place nthreads
    ((List.range' gstart ngroups).flatMap fun gid => (List.range' wstart nworkers).map (gid, ·)))
  rw [List.map_map] at places
  refine places.trans ?_
  rw [List.map_flatMap]
  refine List.flatMap_congr fun gid _ => ?_
  rw [List.map_map]
  simp [Function.comp_def]

/-- A process has workers of one group, or several whole groups. -/
theorem createWorkers_grpIds (c : ClusterConf) {nthreads pid : Nat} {threads : List Thread}
    (created : c.createWorkers nthreads pid = .ok threads) (here : pid < c.nworkerProcs) :
    (c.nworkersPerProcs ≤ c.nworkersPerGroup ∧ ∃ gid m, threads.map Thread.grpId = List.replicate (m + 1) gid) ∨
      (c.nworkersPerGroup < c.nworkersPerProcs ∧ ∃ gstart k, threads.map Thread.grpId =
        (List.range' gstart (k + 2)).flatMap (List.replicate c.nworkersPerGroup)) := by
  by_cases le : c.nworkersPerProcs ≤ c.nworkersPerGroup
  · rw [createWorkers_block here le] at created
    cases created
    obtain ⟨m, size⟩ := Nat.exists_eq_succ_of_ne_zero c.workersPerProcs_pos.ne'
    have all := workersIn_groups nthreads (pid * c.nworkersPerProcs / c.nworkersPerGroup) 1
      (pid * c.nworkersPerProcs % c.nworkersPerGroup) c.nworkersPerProcs
    refine .inl ⟨le, pid * c.nworkersPerProcs / c.nworkersPerGroup, m, ?_⟩
    rw [show m + 1 = c.nworkersPerProcs from size.symm]
    simpa [workersIn, Grid.cells] using all
  · have whole : c.nworkersPerProcs % c.nworkersPerGroup = 0 := by
      by_contra rest
      simp only [createWorkers, hasWorker, here, decide_true, if_true, le, rest, if_false] at created
      cases created
    have two : 2 ≤ c.nworkersPerProcs / c.nworkersPerGroup := by
      have size := Nat.div_mul_cancel (Nat.dvd_of_mod_eq_zero whole)
      by_contra few
      have one : c.nworkersPerProcs / c.nworkersPerGroup ≤ 1 := by omega
      have small := Nat.mul_le_mul_right c.nworkersPerGroup one
      omega
    rw [createWorkers_groups here (not_le.mp le) whole] at created
    cases created
    refine .inr ⟨not_le.mp le, pid * (c.nworkersPerProcs / c.nworkersPerGroup),
      c.nworkersPerProcs / c.nworkersPerGroup - 2, ?_⟩
    rw [workersIn_groups, Nat.sub_add_cancel two]

/-- Several whole groups have a net each exactly when they have one worker each. -/
theorem assignNets_apart_iff {first next : Nat} (k : Nat) {m : Nat} (used : 1 ≤ next) (some : 0 < m) :
    (∀ e ∈ assignNets first next ((List.range' first (k + 2)).flatMap (List.replicate m)),
      ∀ e' ∈ assignNets first next ((List.range' first (k + 2)).flatMap (List.replicate m)), e.2 = e'.2 ↔ e.1 = e'.1) ↔
      m = 1 := by
  constructor
  · intro all
    by_contra many
    obtain ⟨m, rfl⟩ : ∃ l, m = l + 2 := ⟨m - 2, by omega⟩
    obtain ⟨e, he, e', he', number, group⟩ := assignNets_pairs first next k m
    exact group ((all e he e' he').mp number)
  · rintro rfl
    have list : (List.range' first (k + 2)).flatMap (List.replicate 1) = first :: List.range' (first + 1) (k + 1) := by
      rw [← List.range'_succ]
      exact List.flatMap_singleton' _
    rw [list, assignNets, if_neg (by simp), assignNets_singles]
    intro e he e' he'
    refine zip_inj (l := first :: List.range' (first + 1) (k + 1)) (m := 0 :: List.range' next (k + 1)) ?_ ?_ he he'
    · exact List.nodup_cons.mpr ⟨by simp, List.nodup_range'⟩
    · refine List.nodup_cons.mpr ⟨fun zero => ?_, List.nodup_range'⟩
      have low := (List.mem_range'_1.mp zero).1
      omega

/-- `TrainTogether` in terms of the pairs of a group and a net. -/
theorem trainTogether_pairs {workers : List WorkerNets} {pairs : List (Nat × Nat)}
    (assigned : workers.map (fun w => (w.worker.grpId, w.trainNet)) = pairs.map fun e => (e.1, some e.2))
    (tests : ∀ w ∈ workers, w.worker.grpId ≠ 0 → w.testNet = none ∧ w.validationNet = none) :
    TrainTogether workers ↔ ∀ e ∈ pairs, ∀ e' ∈ pairs, e.2 = e'.2 ↔ e.1 = e'.1 := by
  constructor
  · intro together e he e' he'
    have of {e : Nat × Nat} (he : e ∈ pairs) : ∃ w ∈ workers, w.worker.grpId = e.1 ∧ w.trainNet = some e.2 := by
      have mem := List.mem_map_of_mem (f := fun e : Nat × Nat => (e.1, some e.2)) he
      rw [← assigned] at mem
      obtain ⟨w, hw, same⟩ := List.mem_map.mp mem
      exact ⟨w, hw, (Prod.mk.inj same).1, (Prod.mk.inj same).2⟩
    obtain ⟨w, hw, group, number⟩ := of he
    obtain ⟨w', hw', group', number'⟩ := of he'
    have iff := together.train w hw w' hw'
    rw [group, group', number, number', Option.some.injEq] at iff
    exact iff
  · intro all
    refine ⟨fun w hw w' hw' => ?_, tests⟩
    have of {w : WorkerNets} (hw : w ∈ workers) : ∃ e ∈ pairs, w.worker.grpId = e.1 ∧ w.trainNet = some e.2 := by
      have mem := List.mem_map_of_mem (f := fun w : WorkerNets => (w.worker.grpId, w.trainNet)) hw
      rw [assigned] at mem
      obtain ⟨e, he, same⟩ := List.mem_map.mp mem
      exact ⟨e, he, (Prod.mk.inj same).1.symm, (Prod.mk.inj same).2.symm⟩
    obtain ⟨e, he, group, number⟩ := of hw
    obtain ⟨e', he', group', number'⟩ := of hw'
    rw [group, group', number, number', Option.some.injEq]
    exact all e he e' he'

/-- The nets before the loop over the workers. -/
theorem setupWorkers_ok {threads : List Thread} {slices : List Nat}
    (run : c.setupWorkers src model threads = .ok (s, slices)) : ∃ net sliced mid start,
      src.create [] model.neuralnet .kTrain c.nworkersPerGroup = .ok net ∧
      sliceNet src.fuel c.toClusterProto net = .ok (sliced, slices) ∧
      c.addTestNet src model { nets := [sliced], grp := (threads.head?.map fun w => (w.grpId : Int)).getD (-1) } = .ok mid ∧
      c.addValidNet src model mid = .ok start ∧
      threads.foldlM (fun s worker => do
        let s ← c.trainNetOf src model s worker
        .ok (setupWorker ((threads.head?.map Thread.id).getD 0) ((threads.getLast?.map Thread.id).getD 0) s worker)) start =
        .ok s := by
  obtain ⟨net, made, run⟩ := Run.do_ok.mp run
  obtain ⟨⟨sliced, slices'⟩, cut, run⟩ := Run.do_ok.mp run
  obtain ⟨mid, test, run⟩ := Run.do_ok.mp run
  obtain ⟨start, valid, run⟩ := Run.do_ok.mp run
  obtain ⟨last, loop, run⟩ := Run.do_ok.mp run
  cases run
  exact ⟨net, sliced, mid, start, made, cut, test, valid, loop⟩

/-- **All workers of a group train one net, and those of other groups another one**, exactly when the process
has workers of one group only, or one worker of every group. -/
theorem trainTogether_iff (c : ClusterConf) {nthreads pid : Nat} {threads : List Thread} {slices : List Nat}
    (created : c.createWorkers nthreads pid = .ok threads)
    (run : c.setupWorkers src model threads = .ok (s, slices)) : TrainTogether s.workers ↔
      (pid < c.nworkerProcs → c.nworkersPerProcs ≤ c.nworkersPerGroup ∨ c.nworkersPerGroup = 1) := by
  obtain ⟨net, sliced, mid, start, -, -, test, valid, loop⟩ := setupWorkers_ok run
  obtain ⟨nets, grp, none, inv⟩ := testNets_ok (by simp) rfl rfl rfl test valid
  have assigned := setup_assign loop
  rw [none, List.map_nil, List.nil_append] at assigned
  rw [trainTogether_pairs assigned (setup_tests inv loop).workers]
  have start_grp (first : Nat) (rest : List Nat) (here : threads.map Thread.grpId = first :: rest) :
      start.grp = first := by
    obtain ⟨worker, workers, rfl, group, -⟩ := List.map_eq_cons_iff.mp here
    rw [grp, ← group]
    rfl
  by_cases here : pid < c.nworkerProcs
  · simp only [here, true_implies]
    rcases createWorkers_grpIds c created here with ⟨le, gid, m, groups⟩ | ⟨several, gstart, k, groups⟩
    · -- workers of one group
      rw [start_grp gid (List.replicate m gid) groups, groups, assignNets_one]
      refine iff_of_true (fun e he e' he' => ?_) (.inl le)
      rw [List.eq_of_mem_replicate he, List.eq_of_mem_replicate he']
      simp
    · -- several groups, all of them whole
      obtain ⟨m, size⟩ := Nat.exists_eq_succ_of_ne_zero c.workersPerGroup_pos.ne'
      have first : start.grp = gstart := by
        refine start_grp gstart (List.replicate m gstart ++
          (List.range' (gstart + 1) (k + 1)).flatMap (List.replicate (m + 1))) ?_
        rw [groups, size, List.range'_succ, List.flatMap_cons, List.replicate_succ, List.cons_append]
      rw [groups, first, assignNets_apart_iff k nets c.workersPerGroup_pos]
      omega
  · rw [createWorkers_away here] at created
    cases created
    simp [assignNets, here]

/-- A data layer and a fully connected layer on dimension 0, with a test net. -/
def smallModel : ModelConf where
  neuralnet := {
    layer := [{ proto := { name := "data", type := .kShardData } },
      { proto := { name := "fc", type := .kInnerProduct, srclayers := ["data"], partitionDim := 0 }, param := [{}, {}] }] }
  testSteps := 1

def smallSource : NetSource where
  fuel := 40
  factory := registeredLayers
  iterate := fun _ => id
  shape := fun _ _ _ => [4]
  base := fun number => 100 * number

/-- One group of two workers in one process. -/
theorem twoByTwo_trainTogether : ∃ threads s slices, twoByTwo.createWorkers 0 0 = .ok threads ∧
    twoByTwo.setupWorkers smallSource smallModel threads = .ok (s, slices) ∧ TrainTogether s.workers := by
  obtain ⟨⟨s, slices⟩, run⟩ : ∃ r, (do
      let threads ← twoByTwo.createWorkers 0 0
      twoByTwo.setupWorkers smallSource smallModel threads) = .ok r := Run.exists_of_isOk (by decide +kernel)
  obtain ⟨threads, created, run⟩ := Run.do_ok.mp run
  exact ⟨threads, s, slices, created, run, (trainTogether_iff twoByTwo created run).mpr (by decide)⟩

/-- Two groups of two workers, all in one process. -/
def twoGroups : ClusterConf :=
  { twoByTwo with nworkerGroups := 2, nworkersPerProcs := 4, workersPerProcs_pos := by decide }

/-- The second worker of group 1 trains the net of group 0. -/
theorem twoGroups_not_trainTogether : ∃ threads s slices, twoGroups.createWorkers 0 0 = .ok threads ∧
    twoGroups.setupWorkers smallSource smallModel threads = .ok (s, slices) ∧ ¬ TrainTogether s.workers := by
  have all : (do
      let threads ← twoGroups.createWorkers 0 0
      let (s, _) ← twoGroups.setupWorkers smallSource smallModel threads
      .ok (s.workers.map fun w : WorkerNets => (w.worker.grpId, w.trainNet))) =
      .ok [(0, some 0), (0, some 0), (1, some 2), (1, some 0)] := by
    decide +kernel
  obtain ⟨threads, created, all⟩ := Run.do_ok.mp all
  obtain ⟨⟨s, slices⟩, run, all⟩ := Run.do_ok.mp all
  refine ⟨threads, s, slices, created, run, fun together => ?_⟩
  have all : s.workers.map (fun w : WorkerNets => (w.worker.grpId, w.trainNet)) =
      [(0, some 0), (0, some 0), (1, some 2), (1, some 0)] := Except.ok.inj all
  have of (grp : Nat) (mem : (grp, some 0) ∈ s.workers.map fun w : WorkerNets => (w.worker.grpId, w.trainNet)) :
      ∃ w ∈ s.workers, w.worker.grpId = grp ∧ w.trainNet = some 0 := by
    obtain ⟨w, hw, same⟩ := List.mem_map.mp mem
    exact ⟨w, hw, (Prod.mk.inj same).1, (Prod.mk.inj same).2⟩
  obtain ⟨w, hw, group, net⟩ := of 0 (by simp [all])
  obtain ⟨w', hw', group', net'⟩ := of 1 (by simp [all])
  have same := (together.train w hw w' hw').mp (net.trans net'.symm)
  omega

end ClusterConf

end Singa
