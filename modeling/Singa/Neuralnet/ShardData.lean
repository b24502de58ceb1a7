import Singa.Utils.ShardTail

/-!
# `ShardDataLayer`: records from a shard, round and round

`Setup` reads the first record to see its shape, and the first `ComputeFeature`
may skip some more. After that each call reads a batch, and goes back to the
first record at the end of the file, which may be in the middle of a batch. The
position in the file is known up to the number of tuples; the buffer is that of
a shard with the default capacity.
-/

namespace Singa
set_option autoImplicit false

/-- `DataShard(folder, mode)`. -/
def DataShard.defaultCapacity : Nat := 104857600

/-- `ShardDataProto`. -/
structure ShardDataConf where
  batchsize : Nat
  randomSkip : Int

/-- `ShardDataLayer`. -/
structure ShardDataLayer (β : Type) where
  shard : DataShard
  sample : β
  records : List β
  randomSkip : Int

namespace ShardDataLayer

variable {β : Type} (parse : List UInt8 → β)

/-- `DataShard::Next(&key, &record)`: the record is parsed from the value, or stays as it is. -/
def next (shard : DataShard) (record : β) : Run (DataShard × β × Bool) := do
  match ← shard.next with
  | (shard, none) => .ok (shard, record, false)
  | (shard, some t) => .ok (shard, parse t.val, true)

/-- The batch size of a partition. -/
def partBatchsize (conf : ShardDataConf) (partitionDim : Int) (npartitions : Nat) : Run Nat :=
  if partitionDim = 0 then
    if npartitions = 0 then .error .divZero else .ok (conf.batchsize / npartitions)
  else .ok conf.batchsize

/-- `ShardDataLayer::Setup`, for the shard file in the folder of the configuration. -/
def setup (file : Option (List UInt8)) (conf : ShardDataConf) (partitionDim : Int) (npartitions : Nat) (blank : β) :
    Run (ShardDataLayer β) := do
  let shard ← DataShard.openRead file DataShard.defaultCapacity
  let (shard, sample, _) ← next parse shard blank
  let batchsize ← partBatchsize conf partitionDim npartitions
  .ok { shard, sample, records := List.replicate batchsize blank, randomSkip := conf.randomSkip }

/-- The loop that skips records; what `Next` returns is not looked at. -/
def skipRecords : Nat → DataShard → β → Run (DataShard × β)
  | 0, shard, sample => .ok (shard, sample)
  | nskip + 1, shard, sample => do
    let (shard, sample, _) ← next parse shard sample
    skipRecords nskip shard sample

/-- The first part of `ShardDataLayer::ComputeFeature`; `draw` is what `rand()` returns. -/
def randomSkips (draw : Nat) (l : ShardDataLayer β) : Run (ShardDataLayer β) :=
  if l.randomSkip = 0 then .ok l
  else do
    let nskip := draw % l.randomSkip.natAbs
    let _ ← l.shard.count
    let (shard, sample) ← skipRecords parse nskip l.shard l.sample
    .ok { l with shard, sample, randomSkip := 0 }

/-- One record of a batch, from the start again at the end of the file. -/
def fetch (shard : DataShard) (record : β) : Run (DataShard × β) := do
  let (shard, record, there) ← next parse shard record
  if there then .ok (shard, record)
  else
    let shard ← shard.seekToFirst
    let (shard, record, there) ← next parse shard record
    if there then .ok (shard, record) else .error .shardNext

/-- The records of a batch. -/
def fetchAll : DataShard → List β → Run (DataShard × List β)
  | shard, [] => .ok (shard, [])
  | shard, record :: records => do
    let (shard, record) ← fetch parse shard record
    let (shard, records) ← fetchAll shard records
    .ok (shard, record :: records)

/-- `ShardDataLayer::ComputeFeature`. -/
def computeFeature (draw : Nat) (l : ShardDataLayer β) : Run (ShardDataLayer β) := do
  let l ← randomSkips parse draw l
  let (shard, records) ← fetchAll parse l.shard l.records
  .ok { l with shard, records }

/-- Calls of `ComputeFeature`, with the batches they deliver. -/
def computeFeatures : List Nat → ShardDataLayer β → Run (ShardDataLayer β × List (List β))
  | [], l => .ok (l, [])
  | draw :: draws, l => do
    let l ← computeFeature parse draw l
    let (last, batches) ← computeFeatures draws l
    .ok (last, l.records :: batches)

/-- The infinite repetition of the records of a shard. -/
def record (ts : List Tuple) (i : Nat) : Option β := ts[i % ts.length]?.map fun t => parse t.val

/-- Whatever is drawn, the batches are a contiguous segment of the infinite repetition, so that as many records in a
row as there are tuples are each of them once. -/
def CyclesThrough (blank : β) (conf : ShardDataConf) (partitionDim : Int) (npartitions : Nat) (ts : List Tuple) : Prop :=
  ∃ layer, setup parse (some (encodeAll ts)) conf partitionDim npartitions blank = .ok layer ∧
    ∀ draws : List Nat, ∃ layer' batches, computeFeatures parse draws layer = .ok (layer', batches) ∧
      (∃ start, batches.flatten.map some =
        (List.range (draws.length * layer.records.length)).map fun i => record parse ts (start + i)) ∧
      ∀ before window after, batches.flatten = before ++ window ++ after → window.length = ts.length →
        window ~r ts.map fun t => parse t.val

/-- A shard that the layer can read: every field goes into the buffer, and `Count` can count the tuples where it is
asked to. -/
structure Loadable (ts : List Tuple) (conf : ShardDataConf) : Prop where
  some : ts ≠ []
  nonempty : ∀ t ∈ ts, t.val ≠ []
  fits : ∀ t ∈ ts, DataShard.Holdable DataShard.defaultCapacity t
  countable : conf.randomSkip = 0 ∨ ts.length < 2 ^ 31

/-! ## Records in turn -/

variable {ts : List Tuple} {conf : ShardDataConf} {shard : DataShard} {p q : Nat}

/-- `p` tuples of the file are read, or all of them. -/
def Stands (ts : List Tuple) (p : Nat) (shard : DataShard) : Prop :=
  p ≤ ts.length ∧ ∃ o b, DataShard.Reading (encodeAll ts) DataShard.defaultCapacity o b shard (encodeAll (ts.drop p))

/-- The next record is that with the number `q` of the infinite repetition. -/
def Turn (ts : List Tuple) (q : Nat) (shard : DataShard) : Prop :=
  ∃ p, p % ts.length = q % ts.length ∧ Stands ts p shard

/-- The default buffer has less than 2 GiB together with each field. -/
theorem Loadable.narrow (h : Loadable ts conf) :
    ∀ t ∈ ts, ∀ f ∈ t.fields, DataShard.defaultCapacity + f.length < 2 ^ 31 := by
  intro t mem f known
  have fits := h.fits t mem f known
  unfold DataShard.defaultCapacity at *
  omega

theorem Loadable.length_pos (h : Loadable ts conf) : 0 < ts.length := List.length_pos_iff.mpr h.some

theorem Stands.opened (ts : List Tuple) :
    Stands ts 0 (DataShard.opened .kRead (Stream.opened (encodeAll ts) 0) ∅ DataShard.defaultCapacity) :=
  ⟨Nat.zero_le _, 0, 0, DataShard.Reading.opened _ _ _⟩

theorem Stands.next (h : Loadable ts conf) (stands : Stands ts p shard) (lt : p < ts.length) :
    ∃ shard', shard.next = .ok (shard', some ts[p]) ∧ Stands ts (p + 1) shard' := by
  obtain ⟨-, o, b, reading⟩ := stands
  rw [List.drop_eq_getElem_cons lt] at reading
  have front : DataShard.Reading (encodeAll ts) DataShard.defaultCapacity o b shard
    (ts[p].encode ++ encodeAll (ts.drop (p + 1))) := reading
  have mem : ts[p] ∈ ts := List.getElem_mem lt
  rcases front.next_whole (h.nonempty _ mem) (.inr (h.narrow _ mem)) with
    ⟨-, o', b', shard', run, reading'⟩ | ⟨misfits, -⟩
  · exact ⟨shard', run, lt, o', b', reading'⟩
  · exact absurd (h.fits _ mem) misfits

theorem Stands.next_end (stands : Stands ts ts.length shard) :
    ∃ shard', shard.next = .ok (shard', none) ∧ Stands ts ts.length shard' := by
  obtain ⟨le, o, b, reading⟩ := stands
  rw [List.drop_length] at reading
  have small : o + 8 < 2 ^ 31 := by
    have bound := reading.le.trans reading.inside
    unfold DataShard.defaultCapacity at bound
    omega
  obtain ⟨shard', run, reading'⟩ := reading.next_end (by decide) small
  rw [← @List.drop_length _ ts] at reading'
  exact ⟨shard', run, le, 0, _, reading'⟩

theorem Stands.seekToFirst (stands : Stands ts p shard) : ∃ shard', shard.seekToFirst = .ok shard' ∧ Stands ts 0 shard' := by
  obtain ⟨-, o, b, reading⟩ := stands
  obtain ⟨shard', run, reading'⟩ := reading.seekToFirst
  exact ⟨shard', run, Nat.zero_le _, 0, 0, reading'⟩

/-- **A record of a batch** is the next one, also where the file ends. -/
theorem Turn.fetch (h : Loadable ts conf) (turn : Turn ts q shard) (old : β) :
    ∃ shard' new, fetch parse shard old = .ok (shard', new) ∧ some new = record parse ts q ∧ Turn ts (q + 1) shard' := by
  obtain ⟨p, same, stands⟩ := turn
  have positive := h.length_pos
  have moves : (p + 1) % ts.length = (q + 1) % ts.length := by rw [Nat.add_mod, same, ← Nat.add_mod]
  by_cases lt : p < ts.length
  · obtain ⟨shard', run, stands'⟩ := stands.next h lt
    have here : record parse ts q = some (parse ts[p].val) := by
      rw [record, ← same, Nat.mod_eq_of_lt lt, List.getElem?_eq_getElem lt, Option.map_some]
    refine ⟨shard', parse ts[p].val, ?_, here.symm, p + 1, moves, stands'⟩
    rw [ShardDataLayer.fetch, ShardDataLayer.next, run]
    rfl
  · obtain rfl : p = ts.length := le_antisymm stands.1 (not_lt.mp lt)
    obtain ⟨shard₁, run₁, stands₁⟩ := stands.next_end
    obtain ⟨shard₂, run₂, stands₂⟩ := stands₁.seekToFirst
    obtain ⟨shard₃, run₃, stands₃⟩ := stands₂.next h positive
    have here : record parse ts q = some (parse ts[0].val) := by
      rw [record, ← same, Nat.mod_self, List.getElem?_eq_getElem positive, Option.map_some]
    refine ⟨shard₃, parse ts[0].val, ?_, here.symm, 0 + 1, ?_, stands₃⟩
    · rw [ShardDataLayer.fetch, ShardDataLayer.next, run₁]
      simp only [bind, Except.bind, Bool.false_eq_true, if_false, run₂]
      rw [ShardDataLayer.next, run₃]
      rfl
    · rw [Nat.add_mod_left] at moves
      rwa [Nat.zero_add]

/-- Records in a row. -/
theorem range_map_add (f : Nat → Option β) (q m k : Nat) : ((List.range (m + k)).map fun i => f (q + i)) =
    ((List.range m).map fun i => f (q + i)) ++ (List.range k).map fun i => f (q + m + i) := by
  rw [List.range_add, List.map_append, List.map_map]
  congr 1
  apply List.map_congr_left
  intro i _
  rw [Function.comp_apply, Nat.add_assoc]

/-- **A batch** is the next records. -/
theorem Turn.fetchAll (h : Loadable ts conf) (turn : Turn ts q shard) (olds : List β) :
    ∃ shard' news, fetchAll parse shard olds = .ok (shard', news) ∧ news.length = olds.length ∧
      news.map some = ((List.range olds.length).map fun i => record parse ts (q + i)) ∧ Turn ts (q + olds.length) shard' := by
  induction olds generalizing q shard with
  | nil => exact ⟨shard, [], rfl, rfl, rfl, turn⟩
  | cons old olds ih =>
    obtain ⟨shard₁, new, run₁, here, turn₁⟩ := turn.fetch parse h old
    obtain ⟨shard₂, news, run₂, length, rest, turn₂⟩ := ih turn₁
    refine ⟨shard₂, new :: news, ?_, by rw [List.length_cons, List.length_cons, length], ?_, ?_⟩
    · rw [ShardDataLayer.fetchAll]
      exact Run.do_ok.mpr ⟨_, run₁, Run.do_ok.mpr ⟨_, run₂, rfl⟩⟩
    · rw [List.length_cons, Nat.add_comm olds.length 1, range_map_add, List.map_cons, here, rest]
      rfl
    · rwa [List.length_cons, Nat.add_comm olds.length 1, ← Nat.add_assoc]

/-- Skipping ends at the end of the file at the latest. -/
theorem Stands.skipRecords (h : Loadable ts conf) (stands : Stands ts p shard) (nskip : Nat) (sample : β) :
    ∃ p' shard' sample', skipRecords parse nskip shard sample = .ok (shard', sample') ∧ Stands ts p' shard' := by
  induction nskip generalizing p shard sample with
  | zero => exact ⟨p, shard, sample, rfl, stands⟩
  | succ nskip ih =>
    rw [ShardDataLayer.skipRecords, ShardDataLayer.next]
    by_cases lt : p < ts.length
    · obtain ⟨shard₁, run, stands₁⟩ := stands.next h lt
      rw [run]
      exact ih stands₁ _
    · obtain rfl : p = ts.length := le_antisymm stands.1 (not_lt.mp lt)
      obtain ⟨shard₁, run, stands₁⟩ := stands.next_end
      rw [run]
      exact ih stands₁ _

theorem complete_all (ts : List Tuple) : DataShard.complete ts (encodeAll ts).length = ts ∧
    DataShard.tornTuple ts (encodeAll ts).length = none := by
  induction ts with
  | nil => exact ⟨rfl, rfl⟩
  | cons t ts ih =>
    have cons : encodeAll (t :: ts) = t.encode ++ encodeAll ts := rfl
    have le : t.size ≤ t.size + (encodeAll ts).length := Nat.le_add_right _ _
    rw [cons, List.length_append, t.encode_length, DataShard.complete, DataShard.tornTuple, if_pos le, if_pos le,
      Nat.add_sub_cancel_left, ih.1, ih.2]
    exact ⟨rfl, rfl⟩

/-- `Count` of the whole file. -/
theorem count_all (fits : ∀ t ∈ ts, DataShard.Holdable DataShard.defaultCapacity t) (file : shard.fdat.bytes = encodeAll ts) :
    shard.count = if ts.length < 2 ^ 31 then .ok (ts.length : Int) else .error .overflow := by
  obtain ⟨all, none⟩ := complete_all ts
  have lengths : ∀ t ∈ ts, t.key.length < 2 ^ 63 ∧ t.val.length < 2 ^ 63 := by
    intro t mem
    obtain ⟨-, key, val⟩ := DataShard.holdable_iff.mp (fits t mem)
    unfold DataShard.defaultCapacity at *
    omega
  have whole : shard.fdat.bytes = (encodeAll ts).take (encodeAll ts).length := by rw [file, List.take_length]
  have count := DataShard.count_cut lengths whole
  have zero : DataShard.cutCount ts (encodeAll ts).length = 0 := by
    unfold DataShard.cutCount
    rw [none]
  rwa [all, zero, Nat.add_zero] at count

theorem Stands.bytes (stands : Stands ts p shard) : shard.fdat.bytes = encodeAll ts := by
  obtain ⟨-, o, b, reading⟩ := stands
  exact reading.bytes

/-- What the first call skips. -/
theorem randomSkips_spec (h : Loadable ts conf) {l : ShardDataLayer β} (stands : Stands ts p l.shard)
    (skip : l.randomSkip = 0 ∨ l.randomSkip = conf.randomSkip) (draw : Nat) : ∃ l' p', randomSkips parse draw l = .ok l' ∧
      Stands ts p' l'.shard ∧ l'.records = l.records ∧ l'.randomSkip = 0 := by
  unfold randomSkips
  by_cases zero : l.randomSkip = 0
  · rw [if_pos zero]
    exact ⟨l, p, rfl, stands, rfl, zero⟩
  · have few : ts.length < 2 ^ 31 := by
      rcases skip with none | some
      · exact absurd none zero
      · exact h.countable.resolve_left fun none => zero (some.trans none)
    obtain ⟨p', shard', sample', run, stands'⟩ := stands.skipRecords parse h (draw % l.randomSkip.natAbs) l.sample
    have count := count_all h.fits stands.bytes
    rw [if_pos few] at count
    rw [if_neg zero, count]
    exact ⟨_, p', Run.do_ok.mpr ⟨_, rfl, Run.do_ok.mpr ⟨_, run, rfl⟩⟩, stands', rfl, rfl⟩

/-- **A call of `ComputeFeature`** delivers the next records. -/
theorem computeFeature_spec (h : Loadable ts conf) {l : ShardDataLayer β} (skip : l.randomSkip = 0)
    (turn : Turn ts q l.shard) (draw : Nat) : ∃ l', computeFeature parse draw l = .ok l' ∧ l'.randomSkip = 0 ∧
      l'.records.length = l.records.length ∧
      l'.records.map some = ((List.range l.records.length).map fun i => record parse ts (q + i)) ∧
      Turn ts (q + l.records.length) l'.shard := by
  obtain ⟨shard', news, run, length, items, turn'⟩ := turn.fetchAll parse h l.records
  refine ⟨{ l with shard := shard', records := news }, ?_, skip, length, items, turn'⟩
  rw [computeFeature, randomSkips, if_pos skip]
  exact Run.do_ok.mpr ⟨l, rfl, Run.do_ok.mpr ⟨_, run, rfl⟩⟩

/-- **Calls of `ComputeFeature`** deliver the records in turn. -/
theorem computeFeatures_spec (h : Loadable ts conf) (draws : List Nat) {l : ShardDataLayer β} (skip : l.randomSkip = 0)
    (turn : Turn ts q l.shard) : ∃ l' batches, computeFeatures parse draws l = .ok (l', batches) ∧
      batches.flatten.map some =
        (List.range (draws.length * l.records.length)).map fun i => record parse ts (q + i) := by
  induction draws generalizing l q with
  | nil => exact ⟨l, [], rfl, by simp⟩
  | cons draw draws ih =>
    obtain ⟨l₁, run, skip₁, length, items, turn₁⟩ := computeFeature_spec parse h skip turn draw
    obtain ⟨l₂, batches, runs, rest⟩ := ih skip₁ turn₁
    refine ⟨l₂, l₁.records :: batches, Run.do_ok.mpr ⟨l₁, run, Run.do_ok.mpr ⟨_, runs, rfl⟩⟩, ?_⟩
    rw [List.flatten_cons, List.map_append, items, rest, length, List.length_cons, add_one_mul, Nat.add_comm (_ * _),
      range_map_add]

/-- The first call may skip records. -/
theorem computeFeatures_first (h : Loadable ts conf) (draws : List Nat) {l : ShardDataLayer β}
    (stands : Stands ts p l.shard) (skip : l.randomSkip = conf.randomSkip) : ∃ l' batches start,
      computeFeatures parse draws l = .ok (l', batches) ∧
      batches.flatten.map some =
        (List.range (draws.length * l.records.length)).map fun i => record parse ts (start + i) := by
  cases draws with
  | nil => exact ⟨l, [], 0, rfl, by simp⟩
  | cons draw draws =>
    obtain ⟨l₁, p', run₁, stands', same, zero⟩ := randomSkips_spec parse h stands (.inr skip) draw
    obtain ⟨l₂, batches, runs, items⟩ := computeFeatures_spec parse h (draw :: draws) zero ⟨p', rfl, stands'⟩
    rw [same] at items
    refine ⟨l₂, batches, p', ?_, items⟩
    have first : computeFeature parse draw l₁ = computeFeature parse draw l := by
      rw [computeFeature, computeFeature, run₁, randomSkips, if_pos zero]
    rw [computeFeatures, first] at runs
    exact runs

/-- **Records in a row** that are as many as the tuples are all of them, in their order from some tuple on. -/
theorem isRotated_of_items {all before window after : List β} {start total : Nat}
    (items : all.map some = (List.range total).map fun i => record parse ts (start + i))
    (split : all = before ++ window ++ after) (length : window.length = ts.length) :
    window ~r ts.map fun t => parse t.val := by
  have size := congrArg List.length items
  rw [List.length_map, List.length_map, List.length_range, split, List.length_append, List.length_append] at size
  have each (i : Nat) (lt : i < ts.length) : window[i]? = record parse ts (start + (before.length + i)) := by
    have here := congrArg (·[before.length + i]?) items
    simp only [List.getElem?_map] at here
    rw [List.getElem?_range (by omega), split, List.append_assoc, List.getElem?_append_right (by omega),
      Nat.add_sub_cancel_left, List.getElem?_append_left (by omega), List.getElem?_eq_getElem (by omega)] at here
    rw [List.getElem?_eq_getElem (by omega)]
    exact Option.some.inj here
  have rotated : window = (ts.map fun t => parse t.val).rotate (start + before.length) := by
    apply List.ext_getElem?
    intro i
    by_cases lt : i < ts.length
    · rw [each i lt, List.getElem?_rotate (by rw [List.length_map]; exact lt), List.length_map, record, List.getElem?_map]
      congr 3
      omega
    · rw [List.getElem?_eq_none (by omega), List.getElem?_eq_none (by rw [List.length_rotate, List.length_map]; omega)]
  rw [rotated]
  exact List.IsRotated.symm ⟨_, rfl⟩

/-- **The layer cycles through the data** without skipping or repeating. -/
theorem cyclesThrough_of_loadable (blank : β) (conf : ShardDataConf) (partitionDim : Int)
    {npartitions : Nat} (partitions : 0 < npartitions) (ts : List Tuple) (h : Loadable ts conf) :
    CyclesThrough parse blank conf partitionDim npartitions ts := by
  have positive := h.length_pos
  obtain ⟨shard, run, stands⟩ := (Stands.opened ts).next h positive
  have divides : ∃ batchsize, partBatchsize conf partitionDim npartitions = .ok batchsize := by
    unfold partBatchsize
    split
    · rw [if_neg partitions.ne']
      exact ⟨_, rfl⟩
    · exact ⟨_, rfl⟩
  obtain ⟨batchsize, divided⟩ := divides
  refine ⟨⟨shard, parse ts[0].val, List.replicate batchsize blank, conf.randomSkip⟩, ?_, fun draws => ?_⟩
  · unfold setup DataShard.openRead
    refine Run.do_ok.mpr ⟨_, rfl, ?_⟩
    rw [next, run]
    exact Run.do_ok.mpr ⟨_, rfl, Run.do_ok.mpr ⟨_, divided, rfl⟩⟩
  · obtain ⟨l', batches, first, runs, items⟩ := computeFeatures_first parse h draws
      (l := ⟨shard, parse ts[0].val, List.replicate batchsize blank, conf.randomSkip⟩) stands rfl
    exact ⟨l', batches, runs, ⟨first, items⟩, fun before window after split length => isRotated_of_items parse items split length⟩

/-- Batches of three from two tuples, of which up to four are skipped at first. -/
theorem written_cyclesThrough : CyclesThrough id [] ⟨3, 5⟩ 0 1 DataShard.written := by
  apply cyclesThrough_of_loadable id [] ⟨3, 5⟩ 0 Nat.one_pos
  constructor
  · decide
  · decide
  · simp only [DataShard.holdable_iff, DataShard.defaultCapacity]
    decide
  · exact .inr (by decide)

/-! ## Shards that the layer cannot read -/

/-- A tuple with a value of `n` bytes. -/
def large (n : Nat) : Tuple := ⟨[], List.replicate n 0⟩

/-- A tuple of one byte, and a larger one. -/
def withLarge (n : Nat) : List Tuple := [⟨[], [1]⟩, large n]

section Large

variable {n o b : Nat} {s : DataShard}

theorem withLarge_bounds (narrow : n < 2 ^ 30) : (encodeAll (withLarge n)).length < 2 ^ 31 := by
  have cons : encodeAll (withLarge n) = (⟨[], [1]⟩ : Tuple).encode ++ ((large n).encode ++ []) := rfl
  rw [cons, List.length_append, List.length_append, Tuple.encode_length, Tuple.encode_length, large, Tuple.size,
    Tuple.size, List.length_replicate]
  simp only [List.length_nil, List.length_singleton]
  omega

/-- The first tuple is read. -/
theorem withLarge_first (narrow : n < 2 ^ 30) (h : DataShard.Reading (encodeAll (withLarge n)) DataShard.defaultCapacity
    o b s (encodeAll (withLarge n))) : ∃ o' b' s', s.next = .ok (s', some ⟨[], [1]⟩) ∧
      DataShard.Reading (encodeAll (withLarge n)) DataShard.defaultCapacity o' b' s' ((large n).encode ++ []) := by
  have small : DataShard.Holdable DataShard.defaultCapacity ⟨[], [1]⟩ := by
    rw [DataShard.holdable_iff]
    decide
  have front : DataShard.Reading (encodeAll (withLarge n)) DataShard.defaultCapacity o b s
    ((⟨[], [1]⟩ : Tuple).encode ++ ((large n).encode ++ [])) := h
  rcases front.next_whole (by decide) (.inl (withLarge_bounds narrow)) with ⟨-, next⟩ | ⟨misfits, -⟩
  · exact next
  · exact absurd small misfits

/-- The second one is not, and the first one is read again. -/
theorem withLarge_fetch (wide : DataShard.defaultCapacity < n) (narrow : n < 2 ^ 30) (h : DataShard.Reading
    (encodeAll (withLarge n)) DataShard.defaultCapacity o b s ((large n).encode ++ [])) (old : List UInt8) :
    ∃ o' b' s', fetch id s old = .ok (s', [1]) ∧
      DataShard.Reading (encodeAll (withLarge n)) DataShard.defaultCapacity o' b' s' ((large n).encode ++ []) := by
  have value : (large n).val.length = n := List.length_replicate
  have nonempty : (large n).val ≠ [] := by
    apply List.ne_nil_of_length_pos
    omega
  rcases h.next_whole nonempty (.inl (withLarge_bounds narrow)) with ⟨fits, -⟩ | ⟨-, s₁, left, run₁, h₁⟩
  · obtain ⟨-, -, val⟩ := DataShard.holdable_iff.mp fits
    omega
  · obtain ⟨s₂, run₂, h₂⟩ := h₁.seekToFirst
    obtain ⟨o₃, b₃, s₃, run₃, h₃⟩ := withLarge_first narrow h₂
    refine ⟨o₃, b₃, s₃, ?_, h₃⟩
    rw [fetch, next, run₁]
    simp only [bind, Except.bind, Bool.false_eq_true, if_false, run₂]
    rw [next, run₃]
    rfl

/-- **A value larger than the buffer** is never delivered: the reader goes back to the first record before it. -/
theorem withLarge_skipped (wide : DataShard.defaultCapacity < n) (narrow : n < 2 ^ 30) :
    ¬ CyclesThrough id [] ⟨2, 0⟩ 0 1 (withLarge n) := by
  rintro ⟨layer, made, all⟩
  obtain ⟨o₁, b₁, s₁, run₁, h₁⟩ := withLarge_first narrow (DataShard.Reading.opened _ _ ∅)
  obtain ⟨o₂, b₂, s₂, run₂, h₂⟩ := withLarge_fetch wide narrow h₁ []
  obtain ⟨o₃, b₃, s₃, run₃, -⟩ := withLarge_fetch wide narrow h₂ []
  have opened : setup id (some (encodeAll (withLarge n))) ⟨2, 0⟩ 0 1 [] = .ok ⟨s₁, [1], [[], []], 0⟩ := by
    unfold setup DataShard.openRead
    refine Run.do_ok.mpr ⟨_, rfl, ?_⟩
    rw [next, run₁]
    rfl
  rw [opened] at made
  cases made
  obtain ⟨layer', batches, run, ⟨start, items⟩, -⟩ := all [0]
  have batch : computeFeatures id [0] ⟨s₁, [1], [[], []], 0⟩ =
      .ok (⟨s₃, [1], [[1], [1]], 0⟩, [[[1], [1]]]) := by
    have fetched : fetchAll id s₁ [[], []] = .ok (s₃, [[1], [1]]) := by
      rw [fetchAll]
      refine Run.do_ok.mpr ⟨_, run₂, ?_⟩
      simp only [fetchAll, run₃, bind, Except.bind]
    rw [computeFeatures, computeFeature, randomSkips, if_pos rfl]
    refine Run.do_ok.mpr ⟨⟨s₃, [1], [[1], [1]], 0⟩, ?_, rfl⟩
    exact Run.do_ok.mpr ⟨_, rfl, Run.do_ok.mpr ⟨_, fetched, rfl⟩⟩
  rw [batch] at run
  cases run
  have odd : record id (withLarge n) 1 ≠ some [1] := by
    intro same
    have lengths := congrArg List.length (Option.some.inj same)
    have value : (large n).val.length = n := List.length_replicate
    change (large n).val.length = 1 at lengths
    unfold DataShard.defaultCapacity at wide
    omega
  have turns (i : Nat) : record id (withLarge n) i = record id (withLarge n) (i % 2) := by
    unfold record
    rw [show (withLarge n).length = 2 from rfl, Nat.mod_mod]
  have pair : [some [1], some [1]] = [record id (withLarge n) (start + 0), record id (withLarge n) (start + 1)] := items
  obtain ⟨here, rest⟩ := List.cons.inj pair
  have next : some [1] = record id (withLarge n) (start + 1) := (List.cons.inj rest).1
  rcases Nat.mod_two_eq_zero_or_one start with even | uneven
  · have second : (start + 1) % 2 = 1 := by omega
    rw [turns, second] at next
    exact odd next.symm
  · rw [turns, Nat.add_zero, uneven] at here
    exact odd here.symm

end Large

/-- More tuples than `Count` can count, where it is asked to. -/
theorem many_not_counted {n : Nat} (many : 2 ^ 31 ≤ n) : ¬ CyclesThrough id [] ⟨1, 1⟩ 0 1 (List.replicate n ⟨[], [1]⟩) := by
  have mem (t : Tuple) (h : t ∈ List.replicate n ⟨[], [1]⟩) : t = ⟨[], [1]⟩ := List.eq_of_mem_replicate h
  have loadable : Loadable (List.replicate n ⟨[], [1]⟩) ⟨1, 0⟩ := by
    refine ⟨?_, ?_, ?_, .inl rfl⟩
    · apply List.ne_nil_of_length_pos
      rw [List.length_replicate]
      omega
    · intro t h
      rw [mem t h]
      exact List.cons_ne_nil _ _
    · intro t h
      rw [mem t h, DataShard.holdable_iff]
      decide
  rintro ⟨layer, made, all⟩
  obtain ⟨s, run₁, stands⟩ := (Stands.opened (List.replicate n ⟨[], [1]⟩)).next loadable loadable.length_pos
  have opened : setup id (some (encodeAll (List.replicate n ⟨[], [1]⟩))) ⟨1, 1⟩ 0 1 [] = .ok ⟨s, [1], [[]], 1⟩ := by
    unfold setup DataShard.openRead
    refine Run.do_ok.mpr ⟨_, rfl, ?_⟩
    rw [next, run₁, List.getElem_replicate]
    rfl
  rw [opened] at made
  cases made
  have count := count_all loadable.fits stands.bytes
  rw [List.length_replicate, if_neg (not_lt.mpr many)] at count
  obtain ⟨layer', batches, run, -⟩ := all [0]
  obtain ⟨l, first, -⟩ := Run.do_ok.mp run
  obtain ⟨l', skipped, -⟩ := Run.do_ok.mp first
  rw [randomSkips, if_neg (show ¬ (1 : Int) = 0 by decide)] at skipped
  obtain ⟨counted, ran, -⟩ := Run.do_ok.mp skipped
  rw [count] at ran
  cases ran

/-- The layer does not cycle through every shard. -/
theorem not_always_cyclesThrough : ¬ CyclesThrough id [] ⟨2, 0⟩ 0 1 (withLarge (DataShard.defaultCapacity + 1)) ∧
    ¬ CyclesThrough id [] ⟨1, 1⟩ 0 1 (List.replicate (2 ^ 31) ⟨[], [1]⟩) :=
  ⟨withLarge_skipped (Nat.lt_succ_self _) (by decide), many_not_counted (Nat.le_refl _)⟩

end ShardDataLayer
end Singa
