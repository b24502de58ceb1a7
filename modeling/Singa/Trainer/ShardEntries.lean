import Singa.Base.Tally
import Singa.Neuralnet.StarNet
import Singa.Trainer.GroupNets
import Singa.Trainer.SliceNet

/-!
# `trainer/trainer.cc`: the entries of the worker shard

`SetupWorkerServer` prepares the entries of a group when it meets the first
worker of the group: every param of the group's net is added to the entry at the
hash of its group and its owner. Groups have 997 hashes each, so that an owner
with a larger id has the hash of an owner of a later group.
-/

namespace Singa
set_option autoImplicit false

/-- The params of a net with their layers. -/
def Net.paramsIn (net : Net) : List (NetLayer × Nat) := net.layers.flatMap fun layer => layer.params.map (layer, ·)

/-- Whether a layer lies in the range of the process's workers. -/
def isLocal (front back : Nat) (layer : NetLayer) : Bool :=
  (front : Int) ≤ layer.proto.partitionId ∧ layer.proto.partitionId ≤ (back : Int)

/-- The entry of the params with owner `o` in net `number`: their number, the number of those in local layers, and
these. -/
structure EntryRight (front back number : Nat) (net : Net) (o : Nat) (entry : ShardEntry) : Prop where
  numTotal : entry.numTotal = net.paramsIn.countP fun e => (net.params e.2).owner = o
  numLocal : entry.numLocal = net.paramsIn.countP fun e => (net.params e.2).owner = o ∧ isLocal front back e.1
  shares : entry.shares =
    (net.paramsIn.filter fun e => (net.params e.2).owner = o ∧ isLocal front back e.1).map fun e => (number, e.2)

/-- Every group and owner has its own entry, the right one. -/
structure EntriesRight (front back : Nat) (s : SetupState) : Prop where
  entry : ∀ w ∈ firstOfGroups none s.workers, ∃ number net, groupNet s.nets w = some (number, net) ∧
    ∀ e ∈ net.paramsIn, ∃ entry, s.workerShard (shardHash w.worker.grpId (net.params e.2).owner) = some entry ∧
      EntryRight front back number net (net.params e.2).owner entry
  apart : ∀ w ∈ firstOfGroups none s.workers, ∀ w' ∈ firstOfGroups none s.workers, ∀ number net number' net',
    groupNet s.nets w = some (number, net) → groupNet s.nets w' = some (number', net') →
    ∀ e ∈ net.paramsIn, ∀ e' ∈ net'.paramsIn,
      shardHash w.worker.grpId (net.params e.2).owner = shardHash w'.worker.grpId (net'.params e'.2).owner →
      w.worker.grpId = w'.worker.grpId ∧ (net.params e.2).owner = (net'.params e'.2).owner

/-- No owner is 997 above an owner of the next group, 1994 above one of the next but one, and so on. -/
def ClusterConf.OwnersApart (c : ClusterConf) (src : NetSource) (model : ModelConf) (workers : List Thread) : Prop :=
  ∀ w ∈ workers, ∀ w' ∈ workers, w.grpId < w'.grpId → ∀ net net', c.trainNetIn src model workers w.grpId = .ok net →
    c.trainNetIn src model workers w'.grpId = .ok net' → ∀ e ∈ net.paramsIn, ∀ e' ∈ net'.paramsIn,
      (net.params e.2).owner ≠ (net'.params e'.2).owner + 997 * (w'.grpId - w.grpId)

/-! ## Entries of one net -/

/-- One call of `AddParam`, and the hash of its entry. -/
structure Addition where
  key : Int
  isLocal : Bool
  share : Nat × Nat

/-- The call of `AddParam` for one param. -/
def addition (front back : Nat) (grp : Int) (number : Nat) (net : Net) (e : NetLayer × Nat) : Addition :=
  ⟨shardHash grp (net.params e.2).owner, isLocal front back e.1, (number, e.2)⟩

/-- `AddParam` of the entry that is there or of a new one. -/
def addTo (entry : Option ShardEntry) (a : Addition) : ShardEntry := (entry.getD {}).addParam a.isLocal a.share

theorem prepareEntries_eq (front back : Nat) (grp : Int) (number : Nat) (net : Net) (shard : WorkerShard) :
    prepareEntries front back grp number net shard =
      tally Addition.key addTo (net.paramsIn.map (addition front back grp number net)) shard := by
  unfold prepareEntries tally Net.paramsIn
  rw [List.map_flatMap, List.foldl_flatMap]
  congr 1
  funext shard layer
  rw [List.map_map, List.foldl_map]
  rfl

theorem foldl_addTo (l : List Addition) (entry : ShardEntry) :
    l.foldl (fun e a => some (addTo e a)) (some entry) = some ⟨entry.numLocal + l.countP Addition.isLocal,
      entry.numTotal + l.length, entry.shares ++ (l.filter Addition.isLocal).map Addition.share⟩ := by
  induction l generalizing entry with
  | nil => simp
  | cons a l ih =>
    rw [List.foldl_cons, ih]
    unfold addTo ShardEntry.addParam
    cases here : a.isLocal
    · simp [here, Nat.add_assoc, Nat.add_comm 1]
    · simp [here, Nat.add_assoc, Nat.add_comm 1]

/-- The entry that some calls of `AddParam` make. -/
theorem foldl_addTo_new {l : List Addition} (some_call : l ≠ []) :
    l.foldl (fun e a => some (addTo e a)) none =
      some ⟨l.countP Addition.isLocal, l.length, (l.filter Addition.isLocal).map Addition.share⟩ := by
  have first : l.foldl (fun e a => some (addTo e a)) none = l.foldl (fun e a => some (addTo e a)) (some {}) := by
    cases l with
    | nil => exact absurd rfl some_call
    | cons a l => rfl
  rw [first, foldl_addTo]
  simp

theorem shardHash_inj {g o o' : Nat} : shardHash g o = shardHash g o' ↔ o = o' := by
  unfold shardHash
  omega

/-- The entry of an owner, if only the params of one net have its hash. -/
theorem entryRight_of_filter {front back number : Nat} (grp : Nat) {net : Net} {e : NetLayer × Nat} (mem : e ∈ net.paramsIn)
    {entry : Option ShardEntry}
    (made : entry = tally Addition.key addTo (net.paramsIn.map (addition front back grp number net)) (fun _ => none)
      (shardHash grp (net.params e.2).owner)) :
    ∃ right, entry = some right ∧ EntryRight front back number net (net.params e.2).owner right := by
  have calls : (net.paramsIn.map (addition front back grp number net)).filter
      (·.key = shardHash grp (net.params e.2).owner) =
      (net.paramsIn.filter fun e' => (net.params e'.2).owner = (net.params e.2).owner).map
        (addition front back grp number net) := by
    rw [List.filter_map]
    congr 1
    refine List.filter_congr fun e' _ => ?_
    simp [addition, shardHash_inj]
  have some_call : (net.paramsIn.filter fun e' => (net.params e'.2).owner = (net.params e.2).owner).map
      (addition front back grp number net) ≠ [] := by
    refine List.ne_nil_of_mem (List.mem_map_of_mem (List.mem_filter.mpr ⟨mem, ?_⟩))
    simp
  rw [tally_apply, calls, foldl_addTo_new some_call] at made
  refine ⟨_, made, ?_, ?_, ?_⟩
  · rw [List.length_map, ← List.countP_eq_length_filter]
  · rw [List.countP_map, List.countP_filter]
    refine List.countP_congr fun e' _ => ?_
    simp [addition, and_comm]
  · rw [List.filter_map, List.map_map, List.filter_filter]
    refine congrArg (List.map _) (List.filter_congr fun e' _ => ?_)
    simp [addition, and_comm]

/-! ## The entries of all groups -/

/-- The calls of `AddParam` for the group of a worker. -/
def groupAdditions (front back : Nat) (nets : List Net) (w : WorkerNets) : List Addition :=
  (groupNet nets w).elim [] fun e => e.2.paramsIn.map (addition front back w.worker.grpId e.1 e.2)

/-- The loops over the groups and their nets as one loop. -/
theorem prepareGroups_eq (front back : Nat) (nets : List Net) (firsts : List WorkerNets) (shard : WorkerShard) :
    firsts.foldl (fun shard w =>
      (groupNet nets w).elim shard fun e => prepareEntries front back w.worker.grpId e.1 e.2 shard) shard =
      tally Addition.key addTo (firsts.flatMap (groupAdditions front back nets)) shard := by
  induction firsts generalizing shard with
  | nil => rfl
  | cons w firsts ih =>
    rw [List.foldl_cons, List.flatMap_cons, tally_append, ih, groupAdditions]
    cases groupNet nets w with
    | none => rfl
    | some e =>
      rw [Option.elim_some, Option.elim_some, prepareEntries_eq]

/-- The hashes of two groups clash at owners that are 997 apart for each group between them. -/
theorem shardHash_eq_iff {g g' o o' : Nat} (le : g ≤ g') : shardHash g o = shardHash g' o' ↔ o = o' + 997 * (g' - g) := by
  unfold shardHash
  omega

/-- Owners whose hashes clash share an entry. -/
theorem EntriesRight.ownersApart {c : ClusterConf} {src : NetSource} {model : ModelConf} {s : SetupState}
    {threads : List Thread} {front back : Nat} (set : c.GroupsSet src model threads s)
    (right : EntriesRight front back s) : c.OwnersApart src model threads := by
  intro v hv v' hv' lt net net' made made' e he e' he' clash
  obtain ⟨w, hw, group, number, found, here, same⟩ := set.first hv
  obtain ⟨w', hw', group', number', found', here', same'⟩ := set.first hv'
  obtain rfl := Except.ok.inj (same.symm.trans made)
  obtain rfl := Except.ok.inj (same'.symm.trans made')
  rw [← group, ← group'] at lt clash
  have one := right.apart w hw w' hw' number found number' found' here here' e he e' he'
    ((shardHash_eq_iff lt.le).mpr clash)
  exact lt.ne one.1

namespace ClusterConf

variable {c : ClusterConf} {src : NetSource} {model : ModelConf} {s : SetupState}

/-- **Every group and owner has its own entry**, with the counts and shares of its params, exactly when no owner
is as far above an owner of a later group as the hashes of the groups are apart. -/
theorem entriesRight_iff (c : ClusterConf) {nthreads pid : Nat} {threads : List Thread} {slices : List Nat}
    (created : c.createWorkers nthreads pid = .ok threads)
    (run : c.setupWorkers src model threads = .ok (s, slices)) :
    EntriesRight ((threads.head?.map Thread.id).getD 0) ((threads.getLast?.map Thread.id).getD 0) s ↔
      c.OwnersApart src model threads := by
  have set := setupWorkers_groups created run
  have entries := set.shard
  rw [prepareGroups_eq] at entries
  generalize (threads.head?.map Thread.id).getD 0 = front at entries ⊢
  generalize (threads.getLast?.map Thread.id).getD 0 = back at entries ⊢
  constructor
  · exact EntriesRight.ownersApart set
  · intro apart
    have mem {w : WorkerNets} (hw : w ∈ firstOfGroups none s.workers) : w.worker ∈ threads := by
      rw [← set.workers]
      exact List.mem_map_of_mem (mem_of_firstOfGroups hw)
    have own (w w' : WorkerNets) (hw : w ∈ firstOfGroups none s.workers) (hw' : w' ∈ firstOfGroups none s.workers)
        (number : Nat) (net : Net) (number' : Nat) (net' : Net) (here : groupNet s.nets w = some (number, net))
        (here' : groupNet s.nets w' = some (number', net')) (e : NetLayer × Nat) (he : e ∈ net.paramsIn)
        (e' : NetLayer × Nat) (he' : e' ∈ net'.paramsIn)
        (clash : shardHash w.worker.grpId (net.params e.2).owner = shardHash w'.worker.grpId (net'.params e'.2).owner) :
        w.worker.grpId = w'.worker.grpId := by
      have made := set.trainNet w hw number net here
      have made' := set.trainNet w' hw' number' net' here'
      rcases lt_trichotomy w.worker.grpId w'.worker.grpId with lt | same | lt
      · exact absurd ((shardHash_eq_iff lt.le).mp clash) (apart _ (mem hw) _ (mem hw') lt net net' made made' e he e' he')
      · exact same
      · exact absurd ((shardHash_eq_iff lt.le).mp clash.symm)
          (apart _ (mem hw') _ (mem hw) lt net' net made' made e' he' e he)
    have nodup : ((firstOfGroups none s.workers).map fun w => w.worker.grpId).Nodup :=
      List.pairwise_map.mpr (set.increase.imp fun lt => lt.ne)
    refine ⟨fun w hw => ?_, ?_⟩
    · obtain ⟨number, net, here⟩ := set.net w (mem_of_firstOfGroups hw)
      refine ⟨number, net, here, fun e he => entryRight_of_filter w.worker.grpId he ?_⟩
      have part : groupAdditions front back s.nets w = net.paramsIn.map (addition front back w.worker.grpId number net) := by
        rw [groupAdditions, here]
        rfl
      rw [entries, ← part]
      refine tally_flatMap_apply hw nodup.of_map (fun w' hw' other a ha clash => ?_) _
      obtain ⟨number', net', here'⟩ := set.net w' (mem_of_firstOfGroups hw')
      rw [groupAdditions, here'] at ha
      obtain ⟨e', he', rfl⟩ := List.mem_map.mp ha
      exact other (List.inj_on_of_nodup_map nodup hw' hw
        (own w' w hw' hw number' net' number net here' here e' he' e he clash))
    · intro w hw w' hw' number net number' net' here here' e he e' he' clash
      have same := own w w' hw hw' number net number' net' here here' e he e' he' clash
      rw [same] at clash
      exact ⟨same, shardHash_inj.mp clash⟩

/-- Two groups of two workers that train a small net. -/
theorem twoGroups_entriesRight : ∃ threads s slices, twoGroups.createWorkers 0 0 = .ok threads ∧
    twoGroups.setupWorkers smallSource smallModel threads = .ok (s, slices) ∧ EntriesRight 0 1 s := by
  let threads : List Thread := [⟨0, 0, 0⟩, ⟨1, 0, 1⟩, ⟨2, 1, 0⟩, ⟨3, 1, 1⟩]
  have created : twoGroups.createWorkers 0 0 = .ok threads := by decide
  obtain ⟨⟨s, slices⟩, run⟩ : ∃ r, twoGroups.setupWorkers smallSource smallModel threads = .ok r :=
    Run.exists_of_isOk (by decide +kernel)
  have owners (g : Nat) (known : g ∈ [0, 1]) (net : Net)
      (made : twoGroups.trainNetIn smallSource smallModel threads g = .ok net) :
      net.paramsIn.map (fun e => (net.params e.2).owner) = [0, 1, 0, 1] := by
    have all : ∀ g ∈ [0, 1], (do
        let net ← twoGroups.trainNetIn smallSource smallModel threads g
        .ok (net.paramsIn.map fun e => (net.params e.2).owner)) = (.ok [0, 1, 0, 1] : Run (List Nat)) := by
      decide +kernel
    obtain ⟨net', made', same⟩ := Run.do_ok.mp (all g known)
    obtain rfl := Except.ok.inj (made'.symm.trans made)
    exact Except.ok.inj same
  refine ⟨threads, s, slices, created, run, (entriesRight_iff twoGroups created run).mpr ?_⟩
  intro w hw w' hw' lt net net' made made' e he e' he'
  have group : ∀ w ∈ threads, w.grpId ∈ [0, 1] := by decide
  have low {net : Net} (known : net.paramsIn.map (fun e => (net.params e.2).owner) = [0, 1, 0, 1])
      {e : NetLayer × Nat} (he : e ∈ net.paramsIn) : (net.params e.2).owner ≤ 1 := by
    have mem := List.mem_map_of_mem (f := fun e => (net.params e.2).owner) he
    rw [known] at mem
    revert mem
    generalize (net.params e.2).owner = o
    simp only [List.mem_cons, List.not_mem_nil, or_false]
    omega
  have small := low (owners _ (group w hw) net made) he
  have gap : 1 ≤ w'.grpId - w.grpId := by omega
  omega

/-! ## A net with many params -/

/-- A data layer and `k` fully connected layers. -/
def wideNames (k : Nat) : List String := (List.range k).map fun i => "fc" ++ NeuralNet.suffix i

theorem wideNames_star {k : Nat} (few : k ≤ 1000) : NeuralNet.StarNames (wideNames k) := by
  have fc (i : Nat) : ("fc" ++ NeuralNet.suffix i).toList = 'f' :: 'c' :: (NeuralNet.suffix i).toList := by simp
  refine ⟨List.nodup_cons.mpr ⟨fun mem => ?_, ?_⟩, fun name mem => ?_⟩
  · obtain ⟨i, -, same⟩ := List.mem_map.mp mem
    have letters := congrArg String.toList same
    rw [fc] at letters
    exact absurd (List.cons.inj letters).1 (by decide)
  · refine List.Nodup.map_on (fun i hi j hj same => ?_) List.nodup_range
    rw [List.mem_range] at hi hj
    rw [String.append_right_inj] at same
    rw [← NeuralNet.suffix_value i (by omega), same, NeuralNet.suffix_value j (by omega)]
  · obtain ⟨i, -, rfl⟩ := List.mem_map.mp mem
    intro c hc
    rw [fc] at hc
    rcases List.mem_cons.mp hc with rfl | hc
    · decide
    rcases List.mem_cons.mp hc with rfl | hc
    · decide
    · have digit := NeuralNet.suffix_digits hc
      intro mark
      simp only [List.mem_cons, List.not_mem_nil, or_false] at mark
      rcases mark with rfl | rfl | rfl | rfl | rfl <;> cases digit

/-- Two groups of one worker, in one process. -/
def twoSingles : ClusterConf :=
  { twoByTwo with
    nworkerGroups := 2, nworkersPerGroup := 1, nworkersPerProcs := 2
    nserversPerGroup := 1, shareMemory := false
    workersPerGroup_pos := Nat.one_pos, workersPerProcs_pos := Nat.two_pos, serversPerGroup_pos := Nat.one_pos }

def wideModel (k : Nat) : ModelConf where
  neuralnet := { layer := NeuralNet.starLayers (wideNames k) }

def wideSource (k : Nat) : NetSource where
  fuel := k + 2
  factory := registeredLayers
  iterate := fun _ => id
  shape := fun _ _ _ => [1]
  base := fun number => 2 * k * number

/-- The workers of the process. -/
def twoWorkers : List Thread := [⟨0, 0, 0⟩, ⟨1, 1, 0⟩]

/-- The setup returns, and both groups have nets with all owners below `2 * k`. -/
theorem twoSingles_setup {k : Nat} (few : k ≤ 1000) : ∃ s slices first second,
    twoSingles.setupWorkers (wideSource k) (wideModel k) twoWorkers = .ok (s, slices) ∧
      twoSingles.trainNetIn (wideSource k) (wideModel k) twoWorkers 0 = .ok first ∧
      twoSingles.trainNetIn (wideSource k) (wideModel k) twoWorkers 1 = .ok second ∧
      (∀ id < 2 * k, ∃ e ∈ first.paramsIn, (first.params e.2).owner = id) ∧
      ∀ id < 2 * k, ∃ e ∈ second.paramsIn, (second.params e.2).owner = id := by
  have names : (wideNames k).length = k := by simp [wideNames]
  have made (number : Nat) := (wideNames_star few).create_star (n := 1)
    (show (wideNames k).length + 2 ≤ k + 2 by rw [names]) id (fun _ _ => [1]) (2 * k * number)
  rw [names] at made
  obtain ⟨net, run, ids, params⟩ := made 0
  obtain ⟨later, run', ids', params'⟩ := made 1
  have pos (u j : Nat) : 0 < ((wideSource k).shape 0 u j).prod := Nat.one_pos
  have new : NeuralNet.NewNet net := NeuralNet.create_new pos run
  have one : leastCommonMultiple 1 1 = 1 := by simp [leastCommonMultiple, gcd_eq]
  have lcm : leastCommonMultiple 1 1 < 2 ^ 31 := by
    rw [one]
    decide
  obtain ⟨pieces, cut⟩ : ∃ pieces, slice (k + 2) (leastCommonMultiple 1 1)
      (ownerSizes (net.ids.map fun id => (net.params id).view)) = .ok pieces := by
    rw [one]
    have each : ∀ x ∈ ownerSizes (net.ids.map fun id => (net.params id).view), x = 1 := by
      intro x hx
      obtain ⟨p, hp, rfl⟩ := List.mem_map.mp hx
      obtain ⟨id, mem, rfl⟩ := List.mem_map.mp (List.mem_filter.mp hp).1
      obtain ⟨-, v, j, shape⟩ := params id ((ids id).mp mem)
      show (net.params id).shape.prod = 1
      rw [shape]
      rfl
    have few' : net.ids.length ≤ 2 * k := by
      have below := (List.subperm_of_subset new.nodup fun id mem => List.mem_range.mpr ((ids id).mp mem)).length_le
      rwa [List.length_range] at below
    have total := List.sum_le_card_nsmul _ 1 fun x hx => (each x hx).le
    have owned : (ownerSizes (net.ids.map fun id => (net.params id).view)).length ≤ net.ids.length := by
      rw [ownerSizes, List.length_map]
      exact (List.length_filter_le _ _).trans_eq (List.length_map _)
    rw [smul_eq_mul, Nat.mul_one] at total
    exact ⟨_, slice_oneBox (by omega) (fun x hx => by rw [each x hx]; exact Nat.one_pos) (by omega)⟩
  obtain ⟨table, -, sliced⟩ := new.sliceNet_table twoSingles.toClusterProto le_rfl le_rfl lcm cut
  have first : twoSingles.firstNet (wideSource k) (wideModel k) = .ok (net.withTable table) :=
    Run.do_ok.mpr ⟨net, run, Run.do_ok.mpr ⟨_, sliced, rfl⟩⟩
  have second : twoSingles.laterNet (wideSource k) (wideModel k) 1 (net.withTable table) = .ok later :=
    Run.do_ok.mpr ⟨later, run', rfl⟩
  have listed {net : Net} (ids : ∀ id, id ∈ net.ids ↔ id < 2 * k) (id : Nat) (low : id < 2 * k) :
      ∃ e ∈ net.paramsIn, e.2 = id := by
    obtain ⟨layer, mem, here⟩ := List.mem_flatMap.mp ((ids id).mpr low)
    exact ⟨(layer, id), List.mem_flatMap.mpr ⟨layer, mem, List.mem_map_of_mem here⟩, rfl⟩
  let start : SetupState := { nets := [net.withTable table], grp := 0 }
  let mid := setupWorker 0 0 { start with trainNet := some 0 } ⟨0, 0, 0⟩
  have loop : ∃ s, twoWorkers.foldlM (fun s worker => do
      let s ← twoSingles.trainNetOf (wideSource k) (wideModel k) s worker
      .ok (setupWorker 0 0 s worker)) start = .ok s := by
    have shared : twoSingles.sharedNet (wideSource k) (wideModel k).neuralnet .kTrain false [net.withTable table] =
        .ok [net.withTable table, later] :=
      Run.do_ok.mpr ⟨later, run', rfl⟩
    obtain ⟨-, nets, grp, -, -⟩ := setupWorker_eq 0 0 { start with trainNet := some 0 } ⟨0, 0, 0⟩
    have again : twoSingles.trainNetOf (wideSource k) (wideModel k) start ⟨0, 0, 0⟩ =
        .ok { start with trainNet := some 0 } := if_neg (not_not.mpr rfl)
    have other : ∃ s, twoSingles.trainNetOf (wideSource k) (wideModel k) mid ⟨1, 1, 0⟩ = .ok s := by
      rw [trainNetOf, grp, nets, if_pos (show ((1 : Nat) : Int) ≠ 0 by decide)]
      exact ⟨_, Run.do_ok.mpr ⟨_, shared, rfl⟩⟩
    obtain ⟨last, other⟩ := other
    exact ⟨_, Run.foldlM_cons_ok (Run.do_ok.mpr ⟨_, again, rfl⟩)
      (Run.foldlM_cons_ok (Run.do_ok.mpr ⟨last, other, rfl⟩) rfl)⟩
  obtain ⟨s, loop⟩ := loop
  refine ⟨s, pieces.flatten, net.withTable table, later, ?_, ?_, ?_, fun id low => ?_, fun id low => ?_⟩
  · exact Run.do_ok.mpr ⟨net, run, Run.do_ok.mpr ⟨_, sliced, Run.do_ok.mpr ⟨start, rfl, Run.do_ok.mpr
      ⟨start, rfl, Run.do_ok.mpr ⟨s, loop, rfl⟩⟩⟩⟩⟩
  · exact Run.do_ok.mpr ⟨_, first, rfl⟩
  · exact Run.do_ok.mpr ⟨_, first, second⟩
  · obtain ⟨e, he, rfl⟩ := listed ids id low
    refine ⟨e, he, ?_⟩
    change (if e.2 ∈ net.ids then _ else net.params e.2).owner = e.2
    rw [if_pos ((ids e.2).mpr low)]
    exact (params e.2 low).1
  · obtain ⟨e, he, rfl⟩ := listed ids' id low
    exact ⟨e, he, (params' e.2 low).1⟩

/-- With 499 layers, the owner 997 of group 0 has the entry of the owner 0 of group 1. -/
theorem twoSingles_entries_not_right : ∃ s slices, twoSingles.createWorkers 0 0 = .ok twoWorkers ∧
    twoSingles.setupWorkers (wideSource 499) (wideModel 499) twoWorkers = .ok (s, slices) ∧ ¬ EntriesRight 0 0 s := by
  obtain ⟨s, slices, first, second, run, here, later, owners, owners'⟩ := twoSingles_setup (k := 499) (by omega)
  have created : twoSingles.createWorkers 0 0 = .ok twoWorkers := by decide
  refine ⟨s, slices, created, run, fun right => ?_⟩
  have apart := right.ownersApart (setupWorkers_groups created run)
  obtain ⟨e, he, owner⟩ := owners 997 (by omega)
  obtain ⟨e', he', owner'⟩ := owners' 0 (by omega)
  refine apart ⟨0, 0, 0⟩ (by decide) ⟨1, 1, 0⟩ (by decide) (by decide) first second here later e he e' he' ?_
  rw [owner, owner']
  rfl

end ClusterConf

end Singa
