import Singa.Trainer.Setup

/-!
# `trainer/trainer.cc`: the train nets of the groups

The first worker of a group gets the group's net. That of the first group of the
process is `net`; the others are made one after another, after the test and the
validation net.
-/

namespace Singa
set_option autoImplicit false

/-- The number of a worker's train net, and the net. -/
def groupNet (nets : List Net) (w : WorkerNets) : Option (Nat × Net) :=
  w.trainNet.bind fun number => (nets[number]?).map (number, ·)

/-- The first worker of every group, when that of the worker before them is `prev`. -/
def firstOfGroups : Option Int → List WorkerNets → List WorkerNets
  | _, [] => []
  | prev, w :: ws =>
    if prev = some (w.worker.grpId : Int) then firstOfGroups prev ws
    else w :: firstOfGroups (some (w.worker.grpId : Int)) ws

/-- The group whose entries were prepared last. -/
def SetupState.prepared (s : SetupState) : Option Int := if s.prepareParam then none else some s.grp

/-- The number of the net of the `i`-th group to come. -/
def SetupState.netNumber (s : SetupState) (i : Nat) : Nat :=
  if s.prepareParam then (if i = 0 then 0 else s.nets.length + (i - 1)) else s.nets.length + i

namespace ClusterConf

variable (c : ClusterConf)

/-- How many nets are made before the loop over the workers, when the first of them is of the group `grp`. -/
def firstNets (model : ModelConf) (grp : Nat) : Nat :=
  1 + (if grp = 0 ∧ model.testSteps ≠ 0 then 1 else 0) + (if grp = 0 ∧ model.validationSteps ≠ 0 then 1 else 0)

/-- `net`, after `SliceParams`. -/
def firstNet (src : NetSource) (model : ModelConf) : Run Net := do
  let net ← src.create [] model.neuralnet .kTrain c.nworkersPerGroup
  let (net, _) ← sliceNet src.fuel c.toClusterProto net
  .ok net

/-- The train net of the `i`-th group in a process whose first group is `grp`. -/
def groupTrainNet (src : NetSource) (model : ModelConf) (grp i : Nat) : Run Net := do
  let net ← c.firstNet src model
  match i with
  | 0 => .ok net
  | i + 1 => c.laterNet src model (firstNets model grp + i) net

/-- The train net of the group `grp`, in a process with the workers `workers`. -/
def trainNetIn (src : NetSource) (model : ModelConf) (workers : List Thread) (grp : Nat) : Run Net :=
  let first := (workers.head?.map Thread.grpId).getD 0
  c.groupTrainNet src model first (grp - first)

end ClusterConf

/-! ## Numbers of nets -/

theorem groupNet_mono {nets nets' : List Net} (grown : nets <+: nets') {w : WorkerNets} {r : Nat × Net}
    (h : groupNet nets w = some r) : groupNet nets' w = some r := by
  obtain ⟨number, train, h⟩ := Option.bind_eq_some_iff.mp h
  obtain ⟨net, here, rfl⟩ := Option.map_eq_some_iff.mp h
  obtain ⟨low, rfl⟩ := List.getElem?_eq_some_iff.mp here
  have kept := List.prefix_iff_getElem?.mp grown number low
  rw [groupNet, train, Option.bind_some, kept, Option.map_some]

theorem mem_of_firstOfGroups {prev : Option Int} {l : List WorkerNets} {w : WorkerNets} (h : w ∈ firstOfGroups prev l) :
    w ∈ l := by
  induction l generalizing prev with
  | nil => cases h
  | cons a l ih =>
    rw [firstOfGroups] at h
    split at h
    · exact List.mem_cons_of_mem a (ih h)
    · rcases List.mem_cons.mp h with rfl | h
      · exact List.mem_cons_self
      · exact List.mem_cons_of_mem a (ih h)

/-- Every group that comes has its first worker. -/
theorem exists_firstOfGroups (prev : Option Int) {l : List WorkerNets} {w : WorkerNets} (h : w ∈ l) :
    prev = some (w.worker.grpId : Int) ∨ ∃ w' ∈ firstOfGroups prev l, w'.worker.grpId = w.worker.grpId := by
  induction l generalizing prev with
  | nil => cases h
  | cons a l ih =>
    rw [firstOfGroups]
    split
    · rename_i same
      rcases List.mem_cons.mp h with rfl | h
      · exact .inl same
      · exact ih prev h
    · right
      rcases List.mem_cons.mp h with rfl | h
      · exact ⟨w, List.mem_cons_self, rfl⟩
      · rcases ih (some (a.worker.grpId : Int)) h with same | ⟨w', hw', same⟩
        · exact ⟨a, List.mem_cons_self, by exact_mod_cast Option.some.inj same⟩
        · exact ⟨w', List.mem_cons_of_mem a hw', same⟩

/-- The first workers of groups in their order are of different groups. -/
theorem firstOfGroups_increase (prev : Option Int) {l : List WorkerNets}
    (sorted : l.Pairwise fun w w' => w.worker.grpId ≤ w'.worker.grpId)
    (above : ∀ g, prev = some g → ∀ w ∈ l, g ≤ w.worker.grpId) :
    (firstOfGroups prev l).Pairwise (fun w w' => w.worker.grpId < w'.worker.grpId) ∧
      ∀ g, prev = some g → ∀ w ∈ firstOfGroups prev l, g < w.worker.grpId := by
  induction l generalizing prev with
  | nil => exact ⟨List.Pairwise.nil, fun _ _ w h => by cases h⟩
  | cons a l ih =>
    obtain ⟨first, rest⟩ := List.pairwise_cons.mp sorted
    rw [firstOfGroups]
    split
    · exact ih prev rest fun g here w hw => above g here w (List.mem_cons_of_mem a hw)
    · rename_i other
      obtain ⟨increase, beyond⟩ := ih (some (a.worker.grpId : Int)) rest fun g here w hw => by
        obtain rfl := Option.some.inj here
        exact_mod_cast first w hw
      refine ⟨List.pairwise_cons.mpr ⟨fun w hw => by exact_mod_cast beyond _ rfl w hw, increase⟩, fun g here => ?_⟩
      have low : g < a.worker.grpId := by
        have le := above g here a List.mem_cons_self
        have ne : g ≠ a.worker.grpId := fun same => other (by rw [here, same])
        omega
      refine List.forall_mem_cons.mpr ⟨low, fun w hw => ?_⟩
      exact low.trans (beyond _ rfl w hw)

/-! ## The loop over the workers -/

namespace ClusterConf

variable {c : ClusterConf} {src : NetSource} {model : ModelConf} {s s' : SetupState} {front back : Nat} {net : Net}

/-- The first net, and the nets that the loop makes. -/
structure LaterNets (c : ClusterConf) (src : NetSource) (model : ModelConf) (net : Net) (start : Nat)
    (nets : List Net) : Prop where
  head : nets.head? = some net
  later : ∀ k made, start ≤ k → nets[k]? = some made → c.laterNet src model k net = .ok made

/-- A pass of the loop adds a net that was made for a group, or none. -/
theorem LaterNets.pass {start : Nat} {worker : Thread} (inv : LaterNets c src model net start s.nets) (branch : c.trainNetOf src model s worker = .ok s') :
    LaterNets c src model net start s'.nets ∧ s.nets <+: s'.nets := by
  rcases trainNetOf_cases branch with ⟨-, net', rest, fresh, nets, made, rfl⟩ | ⟨-, rfl⟩
  · have first := inv.head
    rw [nets] at first
    obtain rfl := Option.some.inj first
    refine ⟨⟨?_, fun k more at_k found => ?_⟩, List.prefix_append _ _⟩
    · rw [List.head?_append_of_ne_nil _ (by simp [nets])]
      exact inv.head
    · rcases Nat.lt_or_ge k s.nets.length with old | new
      · rw [List.getElem?_append_left old] at found
        exact inv.later k more at_k found
      · have last : k = s.nets.length := by
          have bound := (List.getElem?_eq_some_iff.mp found).1
          rw [List.length_append, List.length_singleton] at bound
          omega
        subst last
        rw [List.getElem?_concat_length] at found
        obtain rfl := Option.some.inj found
        exact made
  · exact ⟨inv, List.prefix_rfl⟩

/-- The nets after the loop. -/
theorem setup_nets {workers : List Thread} (first : s.nets.head? = some net)
    (run : workers.foldlM (fun s worker => do
      let s ← c.trainNetOf src model s worker
      .ok (setupWorker front back s worker)) s = .ok s') :
    LaterNets c src model net s.nets.length s'.nets ∧ s.nets <+: s'.nets := by
  refine Run.foldlM_inv (fun _ t => LaterNets c src model net s.nets.length t.nets ∧ s.nets <+: t.nets)
    (fun done worker t t' inv pass => ?_) ⟨⟨first, fun k made le found => ?_⟩, List.prefix_rfl⟩ run
  · obtain ⟨before, branch, pass⟩ := Run.do_ok.mp pass
    cases pass
    obtain ⟨-, nets, -⟩ := setupWorker_eq front back before worker
    obtain ⟨later, grown⟩ := inv.1.pass branch
    rw [nets]
    exact ⟨later, inv.2.trans grown⟩
  · have bound := (List.getElem?_eq_some_iff.mp found).1
    omega

/-- One pass of the loop: `worker` becomes `w`, with the net `net`. -/
structure Pass (front back : Nat) (s next : SetupState) (worker : Thread) (w : WorkerNets) (number : Nat)
    (net : Net) : Prop where
  workers : next.workers = s.workers ++ [w]
  own : w.worker = worker
  group : groupNet next.nets w = some (number, net)
  grown : s.nets <+: next.nets
  prepared : next.prepared = some (worker.grpId : Int)
  /-- The entries of a group are prepared once. -/
  shard : next.workerShard = if s.prepared = some (worker.grpId : Int) then s.workerShard
    else prepareEntries front back worker.grpId number net s.workerShard
  again : s.prepared = some (worker.grpId : Int) → next.netNumber = s.netNumber
  first : (s.prepareParam = true → s.grp = worker.grpId) → s.prepared ≠ some (worker.grpId : Int) →
    w.trainNet = some (s.netNumber 0) ∧ ∀ i, next.netNumber i = s.netNumber (i + 1)

/-- What the setup of a worker with a net leaves. -/
theorem setupWorker_shard {worker : Thread} {number : Nat} (front back : Nat) (train : s.trainNet = some number)
    (here : s.nets[number]? = some net) :
    (setupWorker front back s worker).prepareParam = false ∧ (setupWorker front back s worker).workerShard =
      if s.prepareParam then prepareEntries front back s.grp number net s.workerShard else s.workerShard := by
  unfold setupWorker
  dsimp only
  rw [train, Option.bind_some, here, Option.map_some]
  cases s.prepareParam
  · exact ⟨rfl, rfl⟩
  · exact ⟨rfl, rfl⟩

/-- Every pass is one. -/
theorem pass_of_ok {worker : Thread} {next : SetupState} (some_net : s.nets ≠ [])
    (run : (do
      let s ← c.trainNetOf src model s worker
      .ok (setupWorker front back s worker)) = (.ok next : Run SetupState)) :
    ∃ w number net, Pass front back s next worker w number net := by
  obtain ⟨before, branch, run⟩ := Run.do_ok.mp run
  cases run
  let w : WorkerNets := ⟨worker, before.trainNet, before.validNet, before.testNet⟩
  obtain ⟨workers, nets, grp, -, -⟩ := setupWorker_eq front back before worker
  rcases trainNetOf_cases branch with ⟨other, net, rest, fresh, -, -, rfl⟩ | ⟨same, rfl⟩
  · have here : (s.nets ++ [fresh])[s.nets.length]? = some fresh := List.getElem?_concat_length
    obtain ⟨done, shard⟩ := setupWorker_shard (s := { s with
      nets := s.nets ++ [fresh], trainNet := some s.nets.length, validNet := none, testNet := none
      grp := worker.grpId, prepareParam := true }) front back rfl here
    have fresh_group : s.prepared ≠ some (worker.grpId : Int) := by
      unfold SetupState.prepared
      split
      · simp
      · simpa using other
    refine ⟨w, s.nets.length, fresh, workers, rfl, ?_, ?_, ?_, ?_, fun same => absurd same fresh_group, ?_⟩
    · rw [nets]
      simp [groupNet, w]
    · rw [nets]
      exact List.prefix_append _ _
    · rw [SetupState.prepared, done, grp]
      rfl
    · rw [shard, if_neg fresh_group]
      rfl
    · intro begun _
      have begun : s.prepareParam = false := by
        by_contra prepare
        exact other (begun (by simpa using prepare))
      refine ⟨by rw [SetupState.netNumber, begun]; rfl, fun i => ?_⟩
      rw [SetupState.netNumber, SetupState.netNumber, done, nets, begun]
      simp only [Bool.false_eq_true, if_false, List.length_append, List.length_singleton]
      omega
  · obtain ⟨net, rest, cons⟩ := List.exists_cons_of_ne_nil some_net
    have here : s.nets[0]? = some net := by rw [cons]; rfl
    obtain ⟨done, shard⟩ := setupWorker_shard (s := { s with trainNet := some 0 }) front back rfl here
    have prepared : s.prepared = some (worker.grpId : Int) ↔ s.prepareParam = false := by
      unfold SetupState.prepared
      cases s.prepareParam
      · simp [same]
      · simp
    refine ⟨w, 0, net, workers, rfl, ?_, ?_, ?_, ?_, fun old => ?_, fun _ begin => ?_⟩
    · rw [nets]
      simp [groupNet, w, here]
    · rw [nets]
    · rw [SetupState.prepared, done, grp]
      exact congrArg some same
    · rw [shard, same]
      by_cases prepare : s.prepareParam = false
      · rw [if_pos (prepared.mpr prepare), prepare]
        rfl
      · rw [if_neg (mt prepared.mp prepare), Bool.not_eq_false _ |>.mp prepare]
        rfl
    · funext i
      rw [SetupState.netNumber, SetupState.netNumber, done, nets, prepared.mp old]
    · have prepare : s.prepareParam = true := by simpa using mt prepared.mpr begin
      refine ⟨by rw [SetupState.netNumber, prepare]; rfl, fun i => ?_⟩
      rw [SetupState.netNumber, SetupState.netNumber, done, nets, prepare]
      rfl

/-- The workers after the loop, and the numbers of the groups' nets. -/
theorem setup_numbers {workers : List Thread} (some_net : s.nets ≠ [])
    (first : s.prepareParam = true → ∀ w ∈ workers.head?, s.grp = w.grpId)
    (run : workers.foldlM (fun s worker => do
      let s ← c.trainNetOf src model s worker
      .ok (setupWorker front back s worker)) s = .ok s') :
    ∃ added, s'.workers = s.workers ++ added ∧ added.map WorkerNets.worker = workers ∧
      (∀ w ∈ added, ∃ number net, groupNet s'.nets w = some (number, net)) ∧
      (∀ i w, (firstOfGroups s.prepared added)[i]? = some w → w.trainNet = some (s.netNumber i)) ∧
      s'.workerShard = (firstOfGroups s.prepared added).foldl (fun shard w =>
        (groupNet s'.nets w).elim shard fun e => prepareEntries front back w.worker.grpId e.1 e.2 shard)
        s.workerShard := by
  induction workers generalizing s with
  | nil =>
    cases run
    exact ⟨[], by simp, rfl, by simp, fun i w h => (List.not_mem_nil (List.mem_of_getElem? h)).elim, rfl⟩
  | cons worker workers ih =>
    rw [List.foldlM_cons] at run
    obtain ⟨next, step, run⟩ := Run.do_ok.mp run
    obtain ⟨w, number, net, pass⟩ := pass_of_ok some_net step
    have some_net' : next.nets ≠ [] := fun none => some_net (List.prefix_nil.mp (none ▸ pass.grown))
    have done : next.prepareParam = true → ∀ w ∈ workers.head?, next.grp = w.grpId := by
      intro prepare
      have last := pass.prepared
      simp [SetupState.prepared, prepare] at last
    obtain ⟨added, all, map, found, numbers, entries⟩ := ih some_net' done run
    obtain ⟨net₀, head⟩ := Option.isSome_iff_exists.mp (List.isSome_head?.mpr some_net')
    have own := groupNet_mono (setup_nets head run).2 pass.group
    rw [pass.prepared] at numbers entries
    have worker' := pass.own
    refine ⟨w :: added, by rw [all, pass.workers, List.append_assoc]; rfl, by rw [List.map_cons, map, worker'],
      List.forall_mem_cons.mpr ⟨⟨number, net, own⟩, found⟩, ?_⟩
    rw [firstOfGroups, worker']
    by_cases old : s.prepared = some (worker.grpId : Int)
    · -- the group was met before
      rw [if_pos old, old, entries, pass.shard, if_pos old]
      rw [pass.again old] at numbers
      exact ⟨numbers, rfl⟩
    · obtain ⟨train, next_number⟩ := pass.first (fun prepare => first prepare worker rfl) old
      rw [if_neg old, entries, pass.shard, if_neg old, List.foldl_cons, own, worker']
      refine ⟨fun i w' at_i => ?_, rfl⟩
      cases i with
      | zero =>
        obtain rfl := Option.some.inj at_i
        exact train
      | succ i =>
        rw [← next_number]
        exact numbers i w' at_i

/-- The workers of a process are created group by group. -/
theorem createWorkers_blocks {nthreads pid : Nat} {threads : List Thread}
    (created : c.createWorkers nthreads pid = .ok threads) : ∃ gstart ngroups nworkers, 0 < nworkers ∧
      threads.map Thread.grpId = (List.range' gstart ngroups).flatMap (List.replicate nworkers) := by
  rw [createWorkers] at created
  split at created
  · dsimp only at created
    split at created
    · cases created
      exact ⟨_, _, _, c.workersPerProcs_pos, workersIn_groups _ _ _ _ _⟩
    · split at created
      · cases created
        exact ⟨_, _, _, c.workersPerGroup_pos, workersIn_groups _ _ _ _ _⟩
      · cases created
  · cases created
    exact ⟨0, 0, 1, Nat.one_pos, rfl⟩

/-- The first workers of whole groups, group by group. -/
theorem firstOfGroups_blocks {l : List WorkerNets} {gstart ngroups nworkers : Nat} (some_worker : 0 < nworkers)
    (groups : l.map (fun w => w.worker.grpId) = (List.range' gstart ngroups).flatMap (List.replicate nworkers)) :
    (firstOfGroups none l).map (fun w => w.worker.grpId) = List.range' gstart ngroups := by
  have sorted : l.Pairwise fun w w' => w.worker.grpId ≤ w'.worker.grpId := by
    rw [← List.pairwise_map (f := fun w : WorkerNets => w.worker.grpId) (R := (· ≤ ·)), groups]
    refine List.pairwise_flatMap.mpr ⟨fun g _ => List.pairwise_replicate.mpr (.inr le_rfl), ?_⟩
    have increase : (List.range' gstart ngroups).Pairwise (· < ·) := List.pairwise_lt_range' 1
    refine increase.imp fun lt x hx y hy => ?_
    rw [List.eq_of_mem_replicate hx, List.eq_of_mem_replicate hy]
    exact lt.le
  have increase := List.pairwise_map.mpr (firstOfGroups_increase none sorted (fun g h => by cases h)).1
  refine List.Perm.eq_of_pairwise (fun a b _ _ lt gt => absurd lt gt.asymm) increase (List.pairwise_lt_range' 1) ?_
  refine (List.perm_ext_iff_of_nodup (increase.imp fun lt => lt.ne) List.nodup_range').mpr fun g => ?_
  have listed : g ∈ List.range' gstart ngroups ↔ g ∈ l.map fun w => w.worker.grpId := by
    rw [groups, List.mem_flatMap]
    constructor
    · exact fun h => ⟨g, h, List.mem_replicate.mpr ⟨some_worker.ne', rfl⟩⟩
    · rintro ⟨g', h, here⟩
      rwa [List.eq_of_mem_replicate here]
  rw [listed, List.mem_map, List.mem_map]
  constructor
  · rintro ⟨w, hw, rfl⟩
    exact ⟨w, mem_of_firstOfGroups hw, rfl⟩
  · rintro ⟨w, hw, rfl⟩
    rcases exists_firstOfGroups none hw with none | first
    · cases none
    · exact first

/-- What the test and validation nets leave. -/
theorem testNets_kept {mid : SetupState} (first : c.addTestNet src model s = .ok mid)
    (second : c.addValidNet src model mid = .ok s') :
    s.nets <+: s'.nets ∧ s'.nets.length = s.nets.length + (if s.grp = 0 ∧ model.testSteps ≠ 0 then 1 else 0) +
      (if s.grp = 0 ∧ model.validationSteps ≠ 0 then 1 else 0) ∧
      s'.workerShard = s.workerShard ∧ s'.prepareParam = s.prepareParam := by
  have firstKept : s.nets <+: mid.nets ∧
      mid.nets.length = s.nets.length + (if s.grp = 0 ∧ model.testSteps ≠ 0 then 1 else 0) ∧ mid.grp = s.grp ∧
      mid.workerShard = s.workerShard ∧ mid.prepareParam = s.prepareParam := by
    rw [addTestNet] at first
    split at first
    · rename_i cond
      obtain ⟨nets, shared, first⟩ := Run.do_ok.mp first
      obtain ⟨fresh, rfl⟩ := sharedNet_append shared
      cases first
      exact ⟨List.prefix_append _ _, by rw [if_pos cond, List.length_append, List.length_singleton], rfl, rfl, rfl⟩
    · rename_i cond
      cases first
      exact ⟨List.prefix_rfl, by rw [if_neg cond, Nat.add_zero], rfl, rfl, rfl⟩
  obtain ⟨grown, length, grp, shard, prepare⟩ := firstKept
  rw [addValidNet, grp] at second
  split at second
  · rename_i cond
    obtain ⟨nets, shared, second⟩ := Run.do_ok.mp second
    obtain ⟨fresh, rfl⟩ := sharedNet_append shared
    cases second
    refine ⟨grown.trans (List.prefix_append _ _), ?_, shard, prepare⟩
    rw [if_pos cond, List.length_append, List.length_singleton, length]
  · rename_i cond
    cases second
    exact ⟨grown, by rw [if_neg cond, length, Nat.add_zero], shard, prepare⟩

/-- What the setup of the workers of a process leaves. -/
structure GroupsSet (c : ClusterConf) (src : NetSource) (model : ModelConf) (threads : List Thread)
    (s : SetupState) : Prop where
  workers : s.workers.map WorkerNets.worker = threads
  increase : (firstOfGroups none s.workers).Pairwise fun w w' => w.worker.grpId < w'.worker.grpId
  net : ∀ w ∈ s.workers, ∃ number net, groupNet s.nets w = some (number, net)
  trainNet : ∀ w ∈ firstOfGroups none s.workers, ∀ number net, groupNet s.nets w = some (number, net) →
    c.trainNetIn src model threads w.worker.grpId = .ok net
  shard : s.workerShard = (firstOfGroups none s.workers).foldl (fun shard w =>
    (groupNet s.nets w).elim shard fun e => prepareEntries ((threads.head?.map Thread.id).getD 0)
      ((threads.getLast?.map Thread.id).getD 0) w.worker.grpId e.1 e.2 shard) fun _ => none

theorem setupWorkers_groups {nthreads pid : Nat} {threads : List Thread} {slices : List Nat}
    (created : c.createWorkers nthreads pid = .ok threads)
    (run : c.setupWorkers src model threads = .ok (s, slices)) : GroupsSet c src model threads s := by
  obtain ⟨net, net', mid, start, made, sliced, test, valid, loop⟩ := setupWorkers_ok run
  have first : c.firstNet src model = .ok net' := Run.do_ok.mpr ⟨net, made, Run.do_ok.mpr ⟨_, sliced, rfl⟩⟩
  obtain ⟨some_net, grp, empty, -⟩ := testNets_ok (by simp) rfl rfl rfl test valid
  obtain ⟨kept, length, shard, prepare⟩ := testNets_kept test valid
  have head : start.nets.head? = some net' := by
    rw [List.head?_eq_getElem?]
    exact List.prefix_iff_getElem?.mp kept 0 (by simp)
  have prepared : start.prepared = none := by
    rw [SetupState.prepared, prepare]
    rfl
  obtain ⟨added, workers, map, found, numbers, entries⟩ := setup_numbers (List.ne_nil_of_length_pos some_net)
    (fun _ w hw => by rw [grp, Option.mem_def.mp hw]; rfl) loop
  obtain ⟨later, -⟩ := setup_nets head loop
  rw [empty, List.nil_append] at workers
  rw [prepared] at numbers entries
  obtain ⟨gstart, ngroups, nworkers, some_worker, blocks⟩ := createWorkers_blocks created
  rw [← map, List.map_map] at blocks
  have groups := firstOfGroups_blocks some_worker blocks
  have increase : (List.range' gstart ngroups).Pairwise (· < ·) := List.pairwise_lt_range' 1
  rw [← groups, List.pairwise_map] at increase
  refine ⟨by rw [workers, map], by rwa [workers], by rwa [workers], fun w hw number net here => ?_,
    by rw [workers, entries, shard]⟩
  rw [workers] at hw
  obtain ⟨i, at_i⟩ := List.mem_iff_getElem?.mp hw
  -- the group of the `i`-th first worker, and that of the first one
  have group : w.worker.grpId = gstart + i ∧ i < ngroups := by
    have at_group := congrArg (·[i]?) groups
    simp only [List.getElem?_map, at_i, Option.map_some] at at_group
    obtain ⟨low, same⟩ := List.getElem?_eq_some_iff.mp at_group.symm
    rw [List.getElem_range', Nat.one_mul] at same
    exact ⟨same.symm, by simpa using low⟩
  have front : threads.head?.map Thread.grpId = some gstart := by
    obtain ⟨n, rfl⟩ := Nat.exists_eq_succ_of_ne_zero (Nat.ne_of_gt (Nat.zero_lt_of_lt group.2))
    obtain ⟨m, rfl⟩ := Nat.exists_eq_succ_of_ne_zero some_worker.ne'
    rw [← List.head?_map, ← map, List.map_map]
    rw [List.range'_succ, List.flatMap_cons, List.replicate_succ] at blocks
    exact congrArg List.head? blocks
  have start_grp : start.grp = gstart := by
    rw [grp]
    obtain ⟨first, at_head, same⟩ := Option.map_eq_some_iff.mp front
    rw [at_head, ← same]
    rfl
  obtain ⟨number', train, here'⟩ := Option.bind_eq_some_iff.mp here
  obtain ⟨found', at_number, same⟩ := Option.map_eq_some_iff.mp here'
  obtain ⟨rfl, rfl⟩ := Prod.mk.inj same
  have number : number' = start.netNumber i := Option.some.inj (train.symm.trans (numbers i w at_i))
  rw [SetupState.netNumber, prepare] at number
  rw [trainNetIn, front, Option.getD_some, group.1, Nat.add_sub_cancel_left]
  refine Run.do_ok.mpr ⟨net', first, ?_⟩
  cases i with
  | zero =>
    obtain rfl : number' = 0 := number
    rw [← List.head?_eq_getElem?, later.head] at at_number
    rw [Option.some.inj at_number]
  | succ i =>
    have number : number' = start.nets.length + i := number
    have made := later.later number' found' (by omega) at_number
    have count : start.nets.length = firstNets model gstart := by
      rw [length, ← grp, start_grp, firstNets]
      simp
    rwa [number, count] at made

/-- The first worker of a worker's group, and the net of the group. -/
theorem GroupsSet.first {threads : List Thread} (set : GroupsSet c src model threads s) {v : Thread} (hv : v ∈ threads) :
    ∃ w ∈ firstOfGroups none s.workers, w.worker.grpId = v.grpId ∧ ∃ number net,
      groupNet s.nets w = some (number, net) ∧ c.trainNetIn src model threads v.grpId = .ok net := by
  rw [← set.workers] at hv
  obtain ⟨w, hw, rfl⟩ := List.mem_map.mp hv
  rcases exists_firstOfGroups none hw with none | ⟨w', hw', same⟩
  · cases none
  · obtain ⟨number, net, here⟩ := set.net w' (mem_of_firstOfGroups hw')
    exact ⟨w', hw', same, number, net, here, same ▸ set.trainNet w' hw' number net here⟩

end ClusterConf

end Singa
