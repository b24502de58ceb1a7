import Singa.Trainer.Ledger
import Singa.Trainer.PutGet
import Singa.Trainer.System

/-!
# A put followed by a get

A worker puts the values of a parameter, slice by slice, to the servers that
keep the slices, and a worker gets them from there. Slices whose server lives in
the worker's process are shared by pointer, the others are copied. `Sim` says
how the memories and shards look at every progress of the transfer.
-/

namespace Singa
set_option autoImplicit false

open Memory Trainer

variable {α : Type}

/-- Who puts and who gets which parameter. -/
structure Transfer (α : Type) where
  site : Site α
  putProc : Int
  putGrp : Int
  getProc : Int
  getGrp : Int
  owner : Int
  start : Nat
  sizes : List Nat
  /-- Where the putting and the getting worker have their values. -/
  putPtr : Ptr
  getPtr : Ptr
  learningRate : α
  weightDecay : α
  numTotal : Int
  putVersion : Int
  getVersion : Int
  /-- The version of the getting worker before. -/
  oldVersion : Int
  /-- The values that are put. -/
  values : List α

namespace Transfer

variable (c : Transfer α)

/-- The server group of both workers. -/
def dst : Int := (c.site.trainer c.getProc).dstGrp c.getGrp

def server (idx : Nat) : Int := (c.site.trainer c.getProc).serverOf (c.start + idx)

/-- The process of the server that keeps the slice `idx`. -/
def home (idx : Nat) : Int := c.site.cluster.procsIdOf c.dst (c.server idx)

def offset (idx : Nat) : Nat := (c.sizes.take idx).sum

def size (idx : Nat) : Nat := c.sizes.getD idx 0

def slice (idx : Nat) : List α := (c.values.drop (c.offset idx)).take (c.size idx)

/-- A request for the slice `idx`. -/
def request (type : MsgType) (grp proc version : Int) (idx : Nat) (frames : List (Frame α)) : Msg α where
  src := ⟨grp, proc, .kStub⟩
  dst := ⟨c.dst, c.server idx, .kServer⟩
  type := type
  paramId := c.owner
  sliceId := (c.start + idx : Nat)
  trgtVersion := version
  frames := frames

def putFrames (idx : Nat) (copy : Bool) : List (Frame α) :=
  let head : Frame α := .format [.int (c.size idx), .float c.learningRate, .float c.weightDecay,
    .ptr (if copy then none else some (c.putPtr.add (c.offset idx)))]
  if copy then [head, .data (c.slice idx), .format [.int c.numTotal]] else [head, .format [.int c.numTotal]]

def putMsg (idx : Nat) : Msg α :=
  c.request .kPut c.putGrp c.putProc c.putVersion idx (c.putFrames idx (c.home idx ≠ c.putProc))

def getMsg (idx : Nat) : Msg α :=
  c.request .kGet c.getGrp c.getProc c.getVersion idx
    [.format [.int (flag (c.home idx ≠ c.getProc)), .ptr (some (c.getPtr.add (c.offset idx)))]]

def response (idx : Nat) : Msg α :=
  Host.getResponse (c.getMsg idx) c.putVersion (if c.home idx ≠ c.getProc then [.data (c.slice idx)] else [])

/-- The message that a token stands for. -/
def packet : Token → Packet α
  | .put => Worker.packet c.putProc c.putGrp 0 .kPut c.owner c.putVersion
  | .get => Worker.packet c.getProc c.getGrp 0 .kGet c.owner c.getVersion
  | .putSlice idx => ⟨c.home idx, c.putMsg idx⟩
  | .getSlice idx => ⟨c.home idx, c.getMsg idx⟩
  | .response idx => ⟨c.getProc, c.response idx⟩

/-- A share of the parameter, with its values at `ptr`. -/
structure Keeps (ptr : Ptr) (p : Param α) : Prop where
  tiled : p.Tiled
  sizes : p.sliceSize = c.sizes
  start : p.sliceStart = c.start
  owner : p.owner = c.owner
  ptr : p.data.ptr = ptr

/-- The entry of the putting worker. -/
structure Putter (entry : ParamEntry α) (p : Param α) : Prop where
  shares : ∃ rest, entry.shares = p :: rest
  keeps : c.Keeps c.putPtr p
  learningRate : p.proto.learningRateMultiplier = c.learningRate
  weightDecay : p.proto.weightDecayMultiplier = c.weightDecay
  numTotal : entry.numTotal = c.numTotal

/-- What holds of the transfer whatever the state: both workers use the same server group, every slice has
a server, and the two workers have the same values or separate ones. -/
structure Valid : Prop where
  per : c.site.cluster.proto.nworkerGroupsPerServerGroup ≠ 0
  group : (c.site.trainer c.putProc).dstGrp c.putGrp = c.dst
  serves : c.start + c.sizes.length ≤ c.site.slice2server.length
  positive : ∀ size ∈ c.sizes, 0 < size
  total : c.values.length = c.sizes.sum
  shares : 0 < c.numTotal
  version : c.getVersion ≤ c.putVersion
  apart : c.putProc = c.getProc → c.putPtr = c.getPtr ∨ Apart c.putPtr c.sizes.sum c.getPtr c.sizes.sum

/-- Every slice that travels as a copy has less than 2²⁹ floats. -/
def Small : Prop := ∀ idx < c.sizes.length, c.home idx ≠ c.putProc ∨ c.home idx ≠ c.getProc → c.size idx < 2 ^ 29

/-- The ids in the messages fit their bits. -/
structure FewIds : Prop where
  owner : 0 ≤ c.owner ∧ c.owner < 2 ^ 15
  slices : c.start + c.sizes.length ≤ 2 ^ 16
  groups : ∀ grp ∈ [c.putGrp, c.getGrp, c.dst], 0 ≤ grp ∧ grp < 2 ^ 15
  procs : ∀ proc ∈ [c.putProc, c.getProc], 0 ≤ proc ∧ proc < 2 ^ 8
  servers : ∀ idx < c.sizes.length, 0 ≤ c.server idx ∧ c.server idx < 2 ^ 8

/-- Before the put and the get: no slice is kept by a server, and nothing is pending. -/
structure Start (s : System α) : Prop where
  valid : c.Valid
  net : s.net = [c.packet .put, c.packet .get]
  putter : ∃ entry p, (s.procs c.putProc).workerShard (hash c.putGrp c.owner) = some entry ∧ c.Putter entry p
  getter : ∃ entry p rest, (s.procs c.getProc).workerShard (hash c.getGrp c.owner) = some entry ∧
    entry.shares = p :: rest ∧ c.Keeps c.getPtr p ∧ entry.nextVersion < c.getVersion ∧
    p.pendingGet = List.replicate c.sizes.length false ∧ p.numPendingRequests = 0 ∧ p.version = c.oldVersion
  values : (s.procs c.putProc).mem.read c.putPtr c.sizes.sum = c.values
  putBlk : c.putPtr.blk < (s.procs c.putProc).mem.next
  getBlk : c.getPtr.blk < (s.procs c.getProc).mem.next
  absent : ∀ idx < c.sizes.length, (s.procs (c.home idx)).serverShard (c.start + idx : Nat) = none
  table : ∀ idx < c.sizes.length, ∃ grp : Int,
    (s.servers (c.dst, c.server idx)).slice2group[c.start + idx]? = some grp

/-! ## The memory -/

/-- The memory of the process `proc` has the values of the slice `idx` at `ptr`, apart from the getting
worker's values or at their place in them. -/
structure Has (proc : Int) (m : Mem α) (idx : Nat) (ptr : Ptr) : Prop where
  read : m.read ptr (c.size idx) = c.slice idx
  valid : ptr.blk < m.next
  place : proc = c.getProc → Apart ptr (c.size idx) c.getPtr c.sizes.sum ∨ ptr = c.getPtr.add (c.offset idx)

/-- A change of the memory after which it still has all slices it had. -/
def Safe (proc : Int) (m m' : Mem α) : Prop :=
  ∀ idx < c.sizes.length, ∀ ptr, c.Has proc m idx ptr → c.Has proc m' idx ptr

variable {c} {proc : Int} {m m' : Mem α}

theorem Safe.refl (c : Transfer α) (proc : Int) (m : Mem α) : c.Safe proc m m := fun _ _ _ has => has

theorem offset_add_size {idx : Nat} (lt : idx < c.sizes.length) :
    c.offset idx + c.size idx = (c.sizes.take (idx + 1)).sum := by
  rw [List.take_succ_eq_append_getElem lt, List.sum_append]
  simp [offset, size, lt]

theorem slice_le {idx : Nat} (lt : idx < c.sizes.length) : c.offset idx + c.size idx ≤ c.sizes.sum := by
  rw [offset_add_size lt]
  exact List.Sublist.sum_le_sum (List.take_sublist _ _) (by simp)

theorem slice_le_offset {i j : Nat} (lt : i < j) (bound : j < c.sizes.length) :
    c.offset i + c.size i ≤ c.offset j := by
  rw [offset_add_size (lt.trans bound)]
  exact List.Sublist.sum_le_sum (List.take_sublist_take_left (Nat.succ_le_of_lt lt)) (by simp)

/-- Different slices of the same window do not meet. -/
theorem slices_apart {i j : Nat} (different : i ≠ j) (iBound : i < c.sizes.length) (jBound : j < c.sizes.length)
    (ptr : Ptr) : Apart (ptr.add (c.offset i)) (c.size i) (ptr.add (c.offset j)) (c.size j) := by
  intro _
  simp only [Ptr.add_off]
  rcases Nat.lt_or_gt_of_ne different with lt | lt
  · have := slice_le_offset lt jBound
    omega
  · have := slice_le_offset lt iBound
    omega

theorem slice_length (v : c.Valid) {idx : Nat} (lt : idx < c.sizes.length) : (c.slice idx).length = c.size idx := by
  have := slice_le lt
  rw [slice, List.length_take, List.length_drop, v.total]
  omega

/-- New blocks are no harm. -/
theorem Safe.of_frame (next : m.next ≤ m'.next) (frame : ∀ q n, q.blk < m.next → m'.read q n = m.read q n) :
    c.Safe proc m m' := by
  intro idx _ ptr has
  exact ⟨(frame ptr _ has.valid).trans has.read, has.valid.trans_le next, has.place⟩

/-- Writing a slice to its place in the getting worker's values is no harm. -/
theorem Safe.of_write (v : c.Valid) (m : Mem α) {idx : Nat} (lt : idx < c.sizes.length) :
    c.Safe c.getProc m (m.write (c.getPtr.add (c.offset idx)) (c.slice idx)) := by
  intro j bound ptr has
  refine ⟨?_, has.valid, has.place⟩
  rcases has.place rfl with apart | here
  · rw [Mem.read_write_apart _ (by
      rw [slice_length v lt]
      exact apart.part (i := 0) (by simp) (slice_le lt)), has.read]
  · by_cases same : j = idx
    · subst same
      rw [here]
      exact Mem.read_write_of_length _ (slice_length v lt)
    · rw [here, Mem.read_write_apart _ (by
        rw [slice_length v lt]
        exact slices_apart same bound lt _), ← here, has.read]

/-! ## The state of the transfer -/

/-- The entry of the getting worker: the slices that are not parsed yet are pending, and the version is
that of the put as soon as none is. -/
structure Getter (c : Transfer α) (g : Progress) (entry : ParamEntry α) (p : Param α) : Prop where
  shares : ∃ rest, entry.shares = p :: rest
  keeps : c.Keeps c.getPtr p
  asked : if g.getDone then entry.nextVersion = c.getVersion else entry.nextVersion < c.getVersion
  flags : p.pendingGet.length = c.sizes.length
  pending : ∀ idx < c.sizes.length, p.pendingGet[idx]? = some (g.getDone && decide (idx ∉ g.parsed))
  count : p.numPendingRequests = p.pendingGet.count true
  got : g.Complete c.sizes.length → p.version = c.putVersion
  before : ¬ g.Complete c.sizes.length → p.version = c.oldVersion

/-- The slice `idx` as its server keeps it. -/
structure Stored (c : Transfer α) (proc : Process α) (idx : Nat) (entry : ParamEntry α) (p : Param α) : Prop where
  found : proc.serverShard (c.start + idx : Nat) = some entry
  shares : entry.shares = [p]
  numTotal : entry.numTotal = c.numTotal
  size : p.size = c.size idx
  version : p.version = c.putVersion
  has : c.Has (c.home idx) proc.mem idx p.data.ptr

/-- The processes and servers at some progress of the transfer. -/
structure Sim (c : Transfer α) (procs : Int → Process α) (servers : Int × Int → Server α) (g : Progress) : Prop where
  putter : ∃ entry p, (procs c.putProc).workerShard (hash c.putGrp c.owner) = some entry ∧ c.Putter entry p
  getter : ∃ entry p, (procs c.getProc).workerShard (hash c.getGrp c.owner) = some entry ∧ c.Getter g entry p
  source : ∀ idx < c.sizes.length,
    c.Has c.putProc (procs c.putProc).mem idx (c.putPtr.add (c.offset idx))
  target : c.getPtr.blk < (procs c.getProc).mem.next
  stored : ∀ idx < c.sizes.length, idx ∈ g.stored → ∃ entry p, c.Stored (procs (c.home idx)) idx entry p
  absent : ∀ idx < c.sizes.length, idx ∉ g.stored →
    (procs (c.home idx)).serverShard (c.start + idx : Nat) = none
  table : ∀ idx < c.sizes.length, ∃ grp : Int,
    (servers (c.dst, c.server idx)).slice2group[c.start + idx]? = some grp
  filled : ∀ idx < c.sizes.length, idx ∈ g.parsed ∨ (idx ∈ g.served ∧ c.home idx = c.getProc) →
    c.Has c.getProc (procs c.getProc).mem idx (c.getPtr.add (c.offset idx))

namespace Keeps

variable {ptr : Ptr} {p : Param α}

theorem numSlices (k : c.Keeps ptr p) : p.numSlices = c.sizes.length := by
  rw [k.tiled.count, k.sizes]

theorem offsetOf (k : c.Keeps ptr p) {idx : Nat} (lt : idx < c.sizes.length) : p.offsetOf idx = c.offset idx := by
  rw [k.tiled.offsetOf_eq (k.numSlices ▸ lt), k.sizes, offset]

theorem sizeOf (k : c.Keeps ptr p) (idx : Nat) : p.sizeOf idx = c.size idx := by
  rw [Param.sizeOf, k.sizes, size]

theorem serves (k : c.Keeps ptr p) (v : c.Valid) (proc : Int) : (c.site.trainer proc).Serves p := by
  have := v.serves
  unfold Trainer.Serves
  rw [k.start, k.numSlices]
  exact this

/-- Requests and versions do not touch what a share keeps. -/
theorem requests (k : c.Keeps ptr p) (flags : List Bool) (count version : Int) :
    c.Keeps ptr { p with pendingGet := flags, numPendingRequests := count, data := { p.data with version } } :=
  ⟨⟨k.tiled.count, k.tiled.offsets, k.tiled.positive, k.tiled.total⟩, k.sizes, k.start, k.owner, k.ptr⟩

end Keeps

variable {s : System α} {g : Progress}

/-- The putting worker's entry after a change of the getting worker's, which may be the same. -/
theorem Sim.putter_set (sim : c.Sim s.procs s.servers g) {entry entry' : ParamEntry α} {p p' : Param α} (mem : Mem α)
    (found : (s.procs c.getProc).workerShard (hash c.getGrp c.owner) = some entry) (getter : c.Getter g entry p)
    (shares : ∃ rest, entry'.shares = p' :: rest) (keeps : c.Keeps c.getPtr p') (proto : p'.proto = p.proto)
    (numTotal : entry'.numTotal = entry.numTotal) :
    ∃ e q, ((s.setStub c.getProc mem (Function.update (s.procs c.getProc).workerShard (hash c.getGrp c.owner)
      (some entry'))).procs c.putProc).workerShard (hash c.putGrp c.owner) = some e ∧ c.Putter e q := by
  obtain ⟨e, q, foundPut, putter⟩ := sim.putter
  by_cases same : c.putProc = c.getProc ∧ hash c.putGrp c.owner = hash c.getGrp c.owner
  · obtain ⟨proc, key⟩ := same
    rw [proc, key, found] at foundPut
    obtain rfl := Option.some.inj foundPut
    obtain ⟨rest, sharesPut⟩ := putter.shares
    obtain ⟨rest', sharesGet⟩ := getter.shares
    rw [sharesPut] at sharesGet
    obtain ⟨rfl, -⟩ := List.cons.inj sharesGet
    have ptr : c.getPtr = c.putPtr := by rw [← getter.keeps.ptr, putter.keeps.ptr]
    refine ⟨entry', p', ?_, shares, ptr ▸ keeps, ?_, ?_, numTotal.trans putter.numTotal⟩
    · rw [proc, key, System.setStub]
      simp
    · rw [proto, putter.learningRate]
    · rw [proto, putter.weightDecay]
  · refine ⟨e, q, ?_, putter⟩
    by_cases proc : c.putProc = c.getProc
    · have key : hash c.putGrp c.owner ≠ hash c.getGrp c.owner := fun key => same ⟨proc, key⟩
      rw [proc] at foundPut
      simp [System.setStub, proc, key, foundPut]
    · simp [System.setStub, proc, foundPut]

/-- Nothing but the getting worker's entry changes. -/
theorem Sim.set_getter (sim : c.Sim s.procs s.servers g) {mem : Mem α} {g' : Progress} {entry entry' : ParamEntry α}
    {p p' : Param α} (found : (s.procs c.getProc).workerShard (hash c.getGrp c.owner) = some entry)
    (getter : c.Getter g entry p) (getter' : c.Getter g' entry' p') (proto : p'.proto = p.proto)
    (numTotal : entry'.numTotal = entry.numTotal) (stored : g'.stored = g.stored)
    (safe : c.Safe c.getProc (s.procs c.getProc).mem mem) (next : (s.procs c.getProc).mem.next ≤ mem.next)
    (filled : ∀ idx < c.sizes.length, idx ∈ g'.parsed ∨ (idx ∈ g'.served ∧ c.home idx = c.getProc) →
      c.Has c.getProc mem idx (c.getPtr.add (c.offset idx))) :
    c.Sim (s.setStub c.getProc mem (Function.update (s.procs c.getProc).workerShard (hash c.getGrp c.owner)
      (some entry'))).procs s.servers g' := by
  have safe' : ∀ proc, c.Safe proc (s.procs proc).mem ((s.setStub c.getProc mem (Function.update
      (s.procs c.getProc).workerShard (hash c.getGrp c.owner) (some entry'))).procs proc).mem := by
    intro proc
    by_cases here : proc = c.getProc
    · subst here
      simpa [System.setStub] using safe
    · simpa [System.setStub, here] using Safe.refl c proc _
  have shard : ∀ proc, ((s.setStub c.getProc mem (Function.update
      (s.procs c.getProc).workerShard (hash c.getGrp c.owner) (some entry'))).procs proc).serverShard =
      (s.procs proc).serverShard := by
    intro proc
    by_cases here : proc = c.getProc
    · subst here
      simp [System.setStub]
    · simp [System.setStub, here]
  refine ⟨sim.putter_set mem found getter getter'.shares getter'.keeps proto numTotal, ⟨entry', p', ?_, getter'⟩,
    ?_, ?_, ?_, ?_, sim.table, ?_⟩
  · simp [System.setStub]
  · intro idx lt
    exact safe' _ idx lt _ (sim.source idx lt)
  · simpa [System.setStub] using sim.target.trans_le next
  · intro idx lt mem
    obtain ⟨e, q, kept⟩ := sim.stored idx lt (stored ▸ mem)
    exact ⟨e, q, (congrFun (shard _) _).trans kept.found, kept.shares, kept.numTotal, kept.size, kept.version,
      safe' _ idx lt _ kept.has⟩
  · intro idx lt none
    rw [shard]
    exact sim.absent idx lt (stored ▸ none)
  · intro idx lt done
    simpa [System.setStub] using filled idx lt done

theorem Getter.congr {g' : Progress} {entry : ParamEntry α} {p : Param α} (getter : c.Getter g entry p)
    (getDone : g'.getDone = g.getDone) (parsed : g'.parsed = g.parsed) : c.Getter g' entry p := by
  have complete : g'.Complete c.sizes.length ↔ g.Complete c.sizes.length := by
    rw [Progress.Complete, Progress.Complete, getDone, parsed]
  exact ⟨getter.shares, getter.keeps, getDone ▸ getter.asked, getter.flags,
    fun idx lt => by rw [getDone, parsed, getter.pending idx lt], getter.count,
    fun done => getter.got (complete.mp done), fun more => getter.before (mt complete.mpr more)⟩

/-- Nothing but the slice `idx` of a server changes. -/
theorem Sim.set_host (sim : c.Sim s.procs s.servers g) {h : Host α} {g' : Progress} {idx : Nat}
    {entry : ParamEntry α} {p : Param α} (getDone : g'.getDone = g.getDone) (parsed : g'.parsed = g.parsed)
    (stored : g'.stored = insert idx g.stored)
    (shard : h.shard = Function.update (s.procs (c.home idx)).serverShard (c.start + idx : Nat) (some entry))
    (groups : h.server.slice2group = (s.servers (c.dst, c.server idx)).slice2group)
    (safe : c.Safe (c.home idx) (s.procs (c.home idx)).mem h.mem)
    (next : (s.procs (c.home idx)).mem.next ≤ h.mem.next)
    (kept : ∀ workerShard, c.Stored ⟨h.mem, workerShard, h.shard⟩ idx entry p)
    (filled : ∀ j < c.sizes.length, j ∈ g'.served → c.home j = c.getProc → (j ∈ g.served ∨ j = idx ∧
      c.Has c.getProc h.mem idx (c.getPtr.add (c.offset idx)))) :
    c.Sim (s.setHost (c.home idx) (c.dst, c.server idx) h).procs
      (s.setHost (c.home idx) (c.dst, c.server idx) h).servers g' := by
  have safe' : ∀ proc, c.Safe proc (s.procs proc).mem
      ((s.setHost (c.home idx) (c.dst, c.server idx) h).procs proc).mem := by
    intro proc
    by_cases here : proc = c.home idx
    · subst here
      simpa [System.setHost] using safe
    · simpa [System.setHost, here] using Safe.refl c proc _
  have workers : ∀ proc, ((s.setHost (c.home idx) (c.dst, c.server idx) h).procs proc).workerShard =
      (s.procs proc).workerShard := by
    intro proc
    by_cases here : proc = c.home idx
    · subst here
      simp [System.setHost]
    · simp [System.setHost, here]
  have others : ∀ j, j ≠ idx → ((s.setHost (c.home idx) (c.dst, c.server idx) h).procs (c.home j)).serverShard
      (c.start + j : Nat) = (s.procs (c.home j)).serverShard (c.start + j : Nat) := by
    intro j different
    by_cases here : c.home j = c.home idx
    · have key : ((c.start + j : Nat) : Int) ≠ (c.start + idx : Nat) := by omega
      simp only [System.setHost, here, Function.update_self, shard]
      rw [Function.update_of_ne key]
    · simp [System.setHost, here]
  refine ⟨?_, ?_, fun j lt => safe' _ j lt _ (sim.source j lt), ?_, ?_, ?_, ?_, ?_⟩
  · simpa only [workers] using sim.putter
  · obtain ⟨e, q, found, getter⟩ := sim.getter
    exact ⟨e, q, by rw [workers, found], getter.congr getDone parsed⟩
  · by_cases here : c.getProc = c.home idx
    · have target := sim.target
      rw [here] at target ⊢
      simpa [System.setHost] using target.trans_le next
    · simpa [System.setHost, here] using sim.target
  · intro j lt mem
    by_cases same : j = idx
    · subst same
      exact ⟨entry, p, by simpa [System.setHost] using kept (s.procs (c.home j)).workerShard⟩
    · have old : j ∈ g.stored := by simpa [stored, same] using mem
      obtain ⟨e, q, kept'⟩ := sim.stored j lt old
      exact ⟨e, q, (others j same).trans kept'.found, kept'.shares, kept'.numTotal, kept'.size, kept'.version,
        safe' _ j lt _ kept'.has⟩
  · intro j lt mem
    have different : j ≠ idx ∧ j ∉ g.stored := by simpa [stored] using mem
    rw [others j different.1]
    exact sim.absent j lt different.2
  · intro j lt
    obtain ⟨grp, table⟩ := sim.table j lt
    refine ⟨grp, ?_⟩
    by_cases same : (c.dst, c.server j) = (c.dst, c.server idx)
    · simp only [System.setHost, same, Function.update_self, groups]
      rw [← same]
      exact table
    · simp only [System.setHost]
      rw [Function.update_of_ne same]
      exact table
  · intro j lt done
    rcases done with done | ⟨served, home⟩
    · exact safe' _ j lt _ (sim.filled j lt (.inl (parsed ▸ done)))
    · rcases filled j lt served home with old | ⟨rfl, has⟩
      · exact safe' _ j lt _ (sim.filled j lt (.inr ⟨old, home⟩))
      · rw [← home] at has ⊢
        simpa [System.setHost] using has

/-- No slice is pending exactly when all are parsed. -/
theorem count_eq_zero_iff {flags : List Bool} {n : Nat} {parsed : Finset Nat} (length : flags.length = n)
    (pending : ∀ idx < n, flags[idx]? = some (decide (idx ∉ parsed))) :
    flags.count true = 0 ↔ ∀ idx < n, idx ∈ parsed := by
  rw [List.count_eq_zero]
  constructor
  · intro none idx lt
    by_contra missing
    have here := pending idx lt
    rw [decide_eq_true missing] at here
    exact none (List.mem_of_getElem? here)
  · intro all mem
    obtain ⟨idx, lt, here⟩ := List.mem_iff_getElem.mp mem
    have flag := pending idx (length ▸ lt)
    rw [List.getElem?_eq_getElem lt, here, decide_eq_false (by simpa using all idx (length ▸ lt))] at flag
    simp at flag

/-- The getting worker's entry after the response for the slice `idx`. -/
theorem Getter.parse {entry : ParamEntry α} {p : Param α} {rest : List (Param α)} (getter : c.Getter g entry p)
    (shares : entry.shares = p :: rest) (done : g.getDone = true) {idx : Nat} (lt : idx < c.sizes.length)
    (new : idx ∉ g.parsed) :
    ∃ p', c.Getter { g with parsed := insert idx g.parsed }
      (if (p.numPendingRequests - 1) % p.numSlices = 0
        then (entry.setFront (gotSlice p idx)).setVersion c.putVersion else entry.setFront (gotSlice p idx)) p' ∧
      p'.proto = p.proto := by
  have here : p.pendingGet[idx]? = some true := by
    rw [getter.pending idx lt, done, decide_eq_true new]
    rfl
  have length : (gotSlice p idx).pendingGet.length = c.sizes.length := by simp [gotSlice, getter.flags]
  have pending : ∀ j < c.sizes.length,
      (gotSlice p idx).pendingGet[j]? = some (decide (j ∉ insert idx g.parsed)) := by
    intro j bound
    by_cases same : idx = j
    · subst same
      simp [gotSlice, getter.flags, bound]
    · have old := getter.pending j bound
      rw [done, Bool.true_and] at old
      simp [gotSlice, same, Ne.symm same, old]
  have less : p.pendingGet.count true = (gotSlice p idx).pendingGet.count true + 1 := by
    obtain ⟨bound, flag⟩ := List.getElem?_eq_some_iff.mp here
    have pos : 0 < p.pendingGet.count true := List.count_pos_iff.mpr (List.mem_of_getElem? here)
    rw [gotSlice, List.count_set bound]
    simp only [flag]
    simp
    omega
  have atMost : p.pendingGet.count true ≤ c.sizes.length := getter.flags ▸ List.count_le_length
  have last : (p.numPendingRequests - 1) % p.numSlices = 0 ↔
      Progress.Complete c.sizes.length { g with parsed := insert idx g.parsed } := by
    have fits : ((gotSlice p idx).pendingGet.count true : Int) % (c.sizes.length : Int) =
        (gotSlice p idx).pendingGet.count true := Int.emod_eq_of_lt (by omega) (by omega)
    rw [getter.count, less, getter.keeps.numSlices, Nat.cast_add, Nat.cast_one, Int.add_sub_cancel, fits,
      Int.natCast_eq_zero, count_eq_zero_iff length pending]
    exact ⟨fun all => ⟨done, by omega, all⟩, fun complete => complete.2.2⟩
  have count : (gotSlice p idx).numPendingRequests = (gotSlice p idx).pendingGet.count true := by
    have old := getter.count
    simp only [gotSlice] at less ⊢
    omega
  have asked : if g.getDone then entry.nextVersion = c.getVersion else entry.nextVersion < c.getVersion := getter.asked
  have pending' : ∀ j < c.sizes.length,
      (gotSlice p idx).pendingGet[j]? = some (g.getDone && decide (j ∉ insert idx g.parsed)) := by
    simpa [done] using pending
  by_cases complete : Progress.Complete c.sizes.length { g with parsed := insert idx g.parsed }
  · rw [if_pos (last.mpr complete)]
    refine ⟨(gotSlice p idx).setVersion c.putVersion, ⟨⟨rest.map (·.setVersion c.putVersion), ?_⟩,
      getter.keeps.requests _ _ c.putVersion, asked, length, pending', count, fun _ => rfl,
      fun more => absurd complete more⟩, rfl⟩
    simp [ParamEntry.setVersion, ParamEntry.setFront, shares]
  · rw [if_neg (mt last.mp complete)]
    have before : ¬ g.Complete c.sizes.length := fun all => new (all.2.2 idx lt)
    refine ⟨gotSlice p idx, ⟨⟨rest, ?_⟩, getter.keeps.requests _ _ p.version, asked, length, pending', count,
      fun more => absurd more complete, fun _ => getter.before before⟩, rfl⟩
    simp [ParamEntry.setFront, shares]

/-- The first state is one of the transfer. -/
theorem Start.sim (start : c.Start s) : c.Sim s.procs s.servers Ledger.initial.toProgress := by
  obtain ⟨entry, p, rest, found, shares, keeps, version, flags, count, old⟩ := start.getter
  have source : ∀ idx < c.sizes.length,
      (s.procs c.putProc).mem.read (c.putPtr.add (c.offset idx)) (c.size idx) = c.slice idx := by
    intro idx lt
    have split : c.sizes.sum = c.offset idx + (c.size idx + (c.sizes.sum - (c.offset idx + c.size idx))) := by
      have := slice_le lt
      omega
    rw [slice, ← start.values, split, Mem.read_add, Mem.read_add, List.drop_left' (by simp), List.take_left' (by simp)]
  refine ⟨start.putter, ⟨entry, p, found, ⟨rest, shares⟩, keeps, ?_, ?_, ?_, ?_, ?_, fun _ => old⟩, ?_, start.getBlk,
    ?_, fun idx lt _ => start.absent idx lt, start.table, ?_⟩
  · simpa [Ledger.initial] using version
  · rw [flags, List.length_replicate]
  · intro idx lt
    simp [flags, lt, Ledger.initial]
  · rw [flags, count]
    simp [List.count_replicate]
  · rintro ⟨done, -⟩
    cases done
  · intro idx lt
    refine ⟨source idx lt, start.putBlk, fun same => ?_⟩
    rcases start.valid.apart same with equal | apart
    · exact .inr (by rw [equal])
    · exact .inl (apart.part (j := 0) (slice_le lt) (by simp))
  · intro idx _ mem
    simp [Ledger.initial] at mem
  · intro idx _ mem
    simp [Ledger.initial] at mem

/-- A state of the transfer. -/
def Reached (c : Transfer α) (s : System α) : Prop :=
  ∃ l : Ledger, l.Ok c.sizes.length ∧ s.net = l.tokens.map c.packet ∧ c.Sim s.procs s.servers l.toProgress

/-- What holds of every state of the transfer: a server has the sender's count of shares for every slice
it keeps, and the getting worker has the version of the put exactly if it has parsed all responses. With
nothing in flight it has the values of the put. -/
structure Outcome (c : Transfer α) (s : System α) : Prop where
  numTotal : ∀ idx < c.sizes.length, ∀ entry,
    (s.procs (c.home idx)).serverShard (c.start + idx : Nat) = some entry → entry.numTotal = c.numTotal
  getter : ∃ entry p rest, (s.procs c.getProc).workerShard (hash c.getGrp c.owner) = some entry ∧
    entry.shares = p :: rest ∧
    p.version = (if entry.nextVersion = c.getVersion ∧ true ∉ p.pendingGet ∧ 0 < c.sizes.length
      then c.putVersion else c.oldVersion) ∧
    (s.net = [] → (s.procs c.getProc).mem.read p.data.ptr p.size = c.values ∧
      entry.nextVersion = c.getVersion ∧ true ∉ p.pendingGet ∧
      ∀ idx < c.sizes.length, ∃ entry, (s.procs (c.home idx)).serverShard (c.start + idx : Nat) = some entry)

theorem Sim.outcome (v : c.Valid) {l : Ledger} (ok : l.Ok c.sizes.length) (net : s.net = l.tokens.map c.packet)
    (sim : c.Sim s.procs s.servers l.toProgress) : c.Outcome s := by
  obtain ⟨entry, p, found, getter⟩ := sim.getter
  obtain ⟨rest, shares⟩ := getter.shares
  have asked : entry.nextVersion = c.getVersion ↔ l.getDone = true := by
    have h := getter.asked
    cases done : l.getDone with
    | false =>
      simp only [done, Bool.false_eq_true, if_false] at h
      simpa using h.ne
    | true => simpa [done] using h
  have complete : entry.nextVersion = c.getVersion ∧ true ∉ p.pendingGet ∧ 0 < c.sizes.length ↔
      l.Complete c.sizes.length := by
    rw [asked]
    constructor
    · rintro ⟨done, none, some⟩
      have pending := getter.pending
      simp only [done, Bool.true_and] at pending
      exact ⟨done, some, (count_eq_zero_iff getter.flags pending).mp (List.count_eq_zero.mpr none)⟩
    · rintro ⟨done, some, all⟩
      have pending := getter.pending
      simp only [done, Bool.true_and] at pending
      exact ⟨done, List.count_eq_zero.mp ((count_eq_zero_iff getter.flags pending).mpr all), some⟩
  refine ⟨?_, entry, p, rest, found, shares, ?_, ?_⟩
  · intro idx lt e here
    by_cases put : idx ∈ l.stored
    · obtain ⟨e', q, kept⟩ := sim.stored idx lt put
      rw [kept.found] at here
      rw [← Option.some.inj here, kept.numTotal]
    · rw [sim.absent idx lt put] at here
      cases here
  · split
    · exact getter.got (complete.mp ‹_›)
    · exact getter.before (mt complete.mpr ‹_›)
  · intro empty
    have none : l.tokens = [] := List.map_eq_nil_iff.mp (net.symm.trans empty)
    obtain ⟨done, all⟩ := ok.finished none
    have pending := getter.pending
    simp only [done, Bool.true_and] at pending
    have size : p.size = c.sizes.sum := by rw [← getter.keeps.tiled.total, getter.keeps.sizes]
    refine ⟨?_, asked.mpr done, ?_, ?_⟩
    · rw [getter.keeps.ptr, size]
      apply Mem.read_pieces _ _ v.total
      intro idx lt
      have read := (sim.filled idx lt (.inl (all idx lt).2)).read
      simpa [offset, Transfer.size, slice, lt] using read
    · exact List.count_eq_zero.mp ((count_eq_zero_iff getter.flags pending).mpr fun idx lt => (all idx lt).2)
    · intro idx lt
      obtain ⟨e, q, kept⟩ := sim.stored idx lt (all idx lt).1
      exact ⟨e, kept.found⟩

end Transfer
end Singa
