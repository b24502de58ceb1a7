import Singa.Trainer.Requests

/-!
# Put and get requests at a server

A put makes the server keep a slice, in a block of its own when the values were
copied and in the worker's memory when they are shared; a get copies the values
back, or moves them to the memory of the worker that asks for them.
-/

namespace Singa
set_option autoImplicit false

open Memory Trainer

variable {α : Type}

/-! ## A put request at a server -/

/-- The server's parameter for a slice that was put, in the memory `m'` that `m` became. -/
structure Kept (m m' : Mem α) (version : Int) (size : Nat) (ptr : Option Ptr) (values : List α) (p : Param α) :
    Prop where
  version_eq : p.version = version
  size_eq : p.size = size
  next : m.next ≤ m'.next
  frame : ∀ q n, q.blk < m.next → m'.read q n = m.read q n
  shared : ∀ q, ptr = some q → p.data.ptr = q
  copied : ptr = none → p.data.ptr.blk = m.next ∧ m.next < m'.next ∧ m'.read p.data.ptr size = values

/-- Two fresh blocks leave the others alone. -/
theorem Param.setup_frame [Zero α] (m : Mem α) (proto : ParamProto α) (size : Nat) {q : Ptr} (n : Nat)
    (old : q.blk < m.next) : (Param.setup m proto size).1.read q n = m.read q n := by
  have later : q.blk < m.alloc.2.next := Nat.lt_succ_of_lt old
  exact (m.alloc.2.read_alloc n later).trans (m.read_alloc n old)

section Put

variable [Zero α] [One α]

variable {m : Mem α} {msg : Msg α} {size : Nat} {lr wd : α} {total : Int}

theorem Param.handlePutMsg_copied {values : List α} (cursor : msg.cursor = 0) (length : values.length = size)
    (some : 0 < size) (frames : msg.frames =
      [.format [.int size, .float lr, .float wd, .ptr none], .data values, .format [.int total]]) :
    ∃ m' p moved, Param.handlePutMsg m msg = .ok (m', p, moved) ∧ Host.numShares moved = .ok total ∧
      Kept m m' p.version size none values p := by
  have parsed : msg.parseIFFP = .ok ((size : Int), lr, wd, none) := by
    simp [Msg.parseIFFP, Msg.args, Msg.frame, frames, cursor, bind, Except.bind]
  have next : msg.nextFrame.2 = true := by simp [Msg.nextFrame, frames, cursor]
  have floats : msg.nextFrame.1.checkedFloats size = .ok values := by
    simp [Msg.checkedFloats, Msg.floats, Msg.frame, Msg.nextFrame, frames, cursor, Frame.size, length, bind,
      Except.bind, List.take_of_length_le]
  refine ⟨(Param.setup m .default size).1.write (Param.setup m .default size).2.data.ptr values,
    (Param.setup m .default size).2, msg.nextFrame.1, ?_, ?_, rfl, rfl, ?_, ?_, by simp, fun _ => ⟨rfl, ?_, ?_⟩⟩
  · refine Run.do_ok.mpr ⟨_, parsed, ?_⟩
    simp only [Int.toNat_natCast, some.ne', if_false, next, if_true]
    exact Run.do_ok.mpr ⟨_, floats, rfl⟩
  · simp [Host.numShares, Msg.nextFrame, Msg.parseI, Msg.args, Msg.frame, frames, cursor, bind, Except.bind]
  · exact Nat.le_add_right m.next 2
  · intro q n old
    rw [Mem.read_write_apart _ (Apart.of_blk (Nat.ne_of_lt old)), Param.setup_frame m _ size n old]
  · exact Nat.lt_add_of_pos_right Nat.two_pos
  · exact Mem.read_write_of_length _ length

/-- A frame that lost floats is refused. -/
theorem Param.handlePutMsg_short {values : List α} (cursor : msg.cursor = 0) (short : values.length ≠ size)
    (some : 0 < size) (frames : msg.frames =
      [.format [.int size, .float lr, .float wd, .ptr none], .data values, .format [.int total]]) :
    Param.handlePutMsg m msg = .error .frameSize := by
  have parsed : msg.parseIFFP = .ok ((size : Int), lr, wd, none) := by
    simp [Msg.parseIFFP, Msg.args, Msg.frame, frames, cursor, bind, Except.bind]
  have next : msg.nextFrame.2 = true := by simp [Msg.nextFrame, frames, cursor]
  have bytes : 4 * values.length ≠ 4 * size := by omega
  have floats : msg.nextFrame.1.checkedFloats size = .error .frameSize := by
    simp [Msg.checkedFloats, Msg.frame, Msg.nextFrame, frames, cursor, Frame.size, bytes, bind, Except.bind]
  refine Run.do_error.mpr (.inr ⟨_, parsed, ?_⟩)
  simp only [Int.toNat_natCast, some.ne', if_false, next, if_true]
  exact Run.do_error.mpr (.inl floats)

theorem Param.handlePutMsg_shared {ptr : Ptr} (cursor : msg.cursor = 0) (some : 0 < size) (frames : msg.frames =
      [.format [.int size, .float lr, .float wd, .ptr (.some ptr)], .format [.int total]]) :
    ∃ m' p moved, Param.handlePutMsg m msg = .ok (m', p, moved) ∧ Host.numShares moved = .ok total ∧
      Kept m m' p.version size (.some ptr) [] p := by
  have parsed : msg.parseIFFP = .ok ((size : Int), lr, wd, .some ptr) := by
    simp [Msg.parseIFFP, Msg.args, Msg.frame, frames, cursor, bind, Except.bind]
  refine ⟨(Param.setup m .default size).1, { (Param.setup m .default size).2 with
      data := { (Param.setup m .default size).2.data with ptr } }, msg, ?_, ?_, rfl, rfl, ?_, ?_, ?_, by simp⟩
  · refine Run.do_ok.mpr ⟨_, parsed, ?_⟩
    simp only [Int.toNat_natCast, some.ne', if_false]
  · simp [Host.numShares, Msg.nextFrame, Msg.parseI, Msg.args, Msg.frame, frames, cursor, bind, Except.bind]
  · exact Nat.le_add_right m.next 2
  · intro q n old
    exact Param.setup_frame m _ size n old
  · intro q same
    exact Option.some.inj same

end Put

namespace Host

variable {h : Host α} {msg : Msg α} {slice : Nat} {grp : Int}

theorem masters_ok (table : h.server.slice2group[slice]? = some grp) : ∃ mine, h.masters slice = .ok mine := by
  have nonneg : ¬ (slice : Int) < 0 := by omega
  refine ⟨decide (grp = h.server.grpId), ?_⟩
  simp only [Host.masters, nonneg, if_false, Int.toNat_natCast, table]

theorem allocLastData_ok (cluster : Cluster) (table : h.server.slice2group[slice]? = some grp) (values : List α) :
    ∃ server, h.allocLastData cluster slice values = .ok { h with server } ∧
      server.slice2group = h.server.slice2group := by
  obtain ⟨mine, masters⟩ := masters_ok table
  by_cases several : 1 < cluster.proto.nserverGroups
  · rw [allocLastData, if_pos several, masters]
    cases mine with
    | true => exact ⟨h.server, rfl, rfl⟩
    | false => exact ⟨_, rfl, rfl⟩
  · rw [allocLastData, if_neg several]
    exact ⟨h.server, rfl, rfl⟩

/-- **A put of a new slice** is kept with the sender's count of shares. -/
theorem receive_put_ok [Field α] (cluster : Cluster) (env : Env α) (h : Host α) {m' : Mem α} {p : Param α}
    {moved : Msg α} {total : Int} (type : msg.type = .kPut) (here : msg.sliceId = slice) (absent : h.shard slice = none)
    (table : h.server.slice2group[slice]? = some grp)
    (stored : Param.handlePutMsg h.mem msg = .ok (m', p, moved)) (count : numShares moved = .ok total) :
    ∃ server, h.receive cluster env msg = .ok (⟨m', Function.update h.shard slice (some (.ofPut total
        (((p.setVersion msg.trgtVersion).setLocalVersion msg.trgtVersion).setId slice))), server⟩, []) ∧
      server.slice2group = h.server.slice2group := by
  let q := ((p.setVersion msg.trgtVersion).setLocalVersion msg.trgtVersion).setId slice
  let h' : Host α := ⟨m', Function.update h.shard slice (some (.ofPut total q)), h.server⟩
  obtain ⟨server, alloc, same⟩ := h'.allocLastData_ok cluster table (m'.read q.data.ptr q.size)
  have put : h.handlePut cluster msg = .ok { h' with server } := by
    rw [handlePut, here]
    simp only [absent]
    exact Run.do_ok.mpr ⟨_, stored, Run.do_ok.mpr ⟨_, count, alloc⟩⟩
  have table' : ({ h' with server } : Host α).server.slice2group[slice]? = some grp := by
    rw [same]
    exact table
  obtain ⟨mine, masters⟩ := masters_ok table'
  simp only [receive, type, here]
  cases mine with
  | true => exact ⟨_, Run.do_ok.mpr ⟨_, put, Run.do_ok.mpr ⟨_, masters, rfl⟩⟩, same⟩
  | false => exact ⟨_, Run.do_ok.mpr ⟨_, put, Run.do_ok.mpr ⟨_, masters, rfl⟩⟩, same⟩

/-- A put whose values are refused aborts the server. -/
theorem receive_put_error [Field α] {cluster : Cluster} {env : Env α} {e : Abort} (type : msg.type = .kPut)
    (absent : h.shard msg.sliceId = none) (refused : Param.handlePutMsg h.mem msg = .error e) :
    h.receive cluster env msg = .error e := by
  have put : h.handlePut cluster msg = .error e := by
    rw [handlePut]
    simp only [absent]
    exact Run.do_error.mpr (.inl refused)
  simp only [receive, type]
  exact Run.do_error.mpr (.inl put)

/-! ## A get request at a server -/

/-- The response to a get request, with the frames added to it. -/
def getResponse (msg : Msg α) (version : Int) (frames : List (Frame α)) : Msg α :=
  { msg with src := msg.dst, dst := msg.src, type := .kRGet, trgtVersion := version, frames := msg.frames ++ frames }

section Get

variable {entry : ParamEntry α} {p : Param α} {ptr : Ptr}

/-- A copy is asked for: the values are added to the request. -/
theorem handleGet_copied (here : msg.sliceId = slice) (found : h.shard slice = some entry)
    (shares : entry.shares = [p]) (version : msg.trgtVersion ≤ p.version) (cursor : msg.cursor = 0)
    (frames : msg.frames = [.format [.int (flag true), .ptr (some ptr)]]) (small : p.size < 2 ^ 29) :
    h.handleGet msg = .ok (h.setEntry slice entry,
      getResponse msg p.version [.data (h.mem.read p.data.ptr p.size)]) := by
  have parsed : msg.parseIP = .ok (flag true, some ptr) := by
    simp [Msg.parseIP, Msg.args, Msg.frame, frames, cursor, bind, Except.bind]
  have same : entry.setFront p = entry := by
    rw [ParamEntry.setFront, shares, List.set_cons_zero, ← shares]
  rw [handleGet, here]
  refine Run.do_ok.mpr ⟨_, Host.paramAt_ok found shares, ?_⟩
  simp only [not_lt.mpr version, if_false]
  have floats : msg.addFloats (h.mem.read p.data.ptr p.size) = .ok (msg.addFrame (.data (h.mem.read p.data.ptr p.size))) :=
    msg.addFloats_small (by simpa using small)
  refine Run.do_ok.mpr ⟨(h.mem, p, _), Run.do_ok.mpr ⟨_, parsed, Run.do_ok.mpr ⟨_, floats, rfl⟩⟩, ?_⟩
  rw [same]
  simp only [getResponse, Msg.setTrgt, Msg.swapAddr, Msg.addFrame, here]

/-- No copy is asked for: the values are moved to the pointer of the request. -/
theorem handleGet_shared (here : msg.sliceId = slice) (found : h.shard slice = some entry)
    (shares : entry.shares = [p]) (version : msg.trgtVersion ≤ p.version) (cursor : msg.cursor = 0)
    (frames : msg.frames = [.format [.int (flag false), .ptr (some ptr)]]) :
    h.handleGet msg = .ok ({ h with mem := h.mem.write ptr (h.mem.read p.data.ptr p.size) }.setEntry slice
      (entry.setFront { p with data := { p.data with ptr } }), getResponse msg p.version []) := by
  have parsed : msg.parseIP = .ok (flag false, some ptr) := by
    simp [Msg.parseIP, Msg.args, Msg.frame, frames, cursor, bind, Except.bind]
  have copied : p.handleGetMsg h.mem msg = .ok (h.mem.write ptr (h.mem.read p.data.ptr p.size),
      { p with data := { p.data with ptr } }, { msg.swapAddr with type := .kRGet }) := by
    refine Run.do_ok.mpr ⟨_, parsed, ?_⟩
    by_cases own : ptr = p.data.ptr
    · simp [flag, own, Mem.write_read]
    · simp [flag, own]
  rw [handleGet, here]
  refine Run.do_ok.mpr ⟨_, Host.paramAt_ok found shares, ?_⟩
  simp only [not_lt.mpr version, if_false]
  refine Run.do_ok.mpr ⟨_, copied, ?_⟩
  simp [getResponse, Msg.setTrgt, Msg.swapAddr, here, Param.version]

variable [Field α] {cluster : Cluster} {env : Env α}

/-- A get that comes before the put is queued again. -/
theorem receive_get_absent (type : msg.type = .kGet) (here : msg.sliceId = slice) (absent : h.shard slice = none) :
    h.receive cluster env msg = .ok (h, [msg]) := by
  simp only [receive, type, here, absent]

/-- A get from another process is answered with a copy. -/
theorem receive_get_copied (type : msg.type = .kGet) (here : msg.sliceId = slice) (found : h.shard slice = some entry)
    (shares : entry.shares = [p]) (version : msg.trgtVersion ≤ p.version) (cursor : msg.cursor = 0)
    (frames : msg.frames = [.format [.int (flag true), .ptr (some ptr)]]) (small : p.size < 2 ^ 29) :
    h.receive cluster env msg =
      .ok (h.setEntry slice entry, [getResponse msg p.version [.data (h.mem.read p.data.ptr p.size)]]) := by
  simp only [receive, type, here, found]
  exact Run.do_ok.mpr ⟨_, handleGet_copied here found shares version cursor frames small, rfl⟩

/-- A get from the same process makes the server share the worker's memory. -/
theorem receive_get_shared (type : msg.type = .kGet) (here : msg.sliceId = slice) (found : h.shard slice = some entry)
    (shares : entry.shares = [p]) (version : msg.trgtVersion ≤ p.version) (cursor : msg.cursor = 0)
    (frames : msg.frames = [.format [.int (flag false), .ptr (some ptr)]]) :
    h.receive cluster env msg =
      .ok ({ h with mem := h.mem.write ptr (h.mem.read p.data.ptr p.size) }.setEntry slice
        (entry.setFront { p with data := { p.data with ptr } }), [getResponse msg p.version []]) := by
  simp only [receive, type, here, found]
  exact Run.do_ok.mpr ⟨_, handleGet_shared here found shares version cursor frames, rfl⟩

end Get
end Host

end Singa
