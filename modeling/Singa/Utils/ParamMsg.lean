import Singa.Communication.Msg
import Singa.Utils.Param

/-!
# `utils/param.cc`: the messages of a parameter

The functions that make, handle and parse the messages of one slice. They work
on the memory of the process they run in: a slice whose server lives in the same
process is sent as a pointer, any other one as a copy of its floats.
-/

namespace Singa
set_option autoImplicit false

open Memory

variable {α : Type}

/-- What the messages rest on besides arithmetic: the updater's rule, and what becomes of a float of
which `memcpy` overwrites the first bytes only. -/
structure Env (α : Type) where
  /-- New data, gradient and history of a parameter. -/
  update : Int → ParamProto α → List α → List α → List α → List α × List α × List α
  mix : Nat → α → α → α

namespace Param

/-- `slice_offset_[idx]` and `slice_size_[idx]`. -/
def sliceAt (p : Param α) (idx : Nat) : Run (Nat × Nat) :=
  match p.sliceOffset[idx]?, p.sliceSize[idx]? with
  | some offset, some size => .ok (offset, size)
  | _, _ => .error .range

/-- The same behind `CHECK_LT(idx, num_slices_)`. -/
def checkedSliceAt (p : Param α) (idx : Nat) : Run (Nat × Nat) :=
  if idx < p.numSlices then p.sliceAt idx else .error .sliceIndex

/-- `Param::GenPutMsg`. -/
def genPutMsg (m : Mem α) (p : Param α) (copy : Bool) (idx : Nat) : Run (Msg α) := do
  let (offset, size) ← p.checkedSliceAt idx
  let ptr := p.data.ptr.add offset
  let msg : Msg α := { type := .kPut }
  let msg := msg.addFrame (.format [.int size, .float p.proto.learningRateMultiplier,
    .float p.proto.weightDecayMultiplier, .ptr (if copy then none else some ptr)])
  if copy then msg.addFloats (m.read ptr size) else .ok msg

/-- `Param::GenGetMsg`. -/
def genGetMsg (p : Param α) (copy : Bool) (idx : Nat) : Run (Param α × Msg α) := do
  let (offset, _) ← p.checkedSliceAt idx
  let msg : Msg α := { type := .kGet }
  let msg := msg.addFrame (.format [.int (flag copy), .ptr (some (p.data.ptr.add offset))])
  .ok ({ p with pendingGet := p.pendingGet.set idx true, numPendingRequests := p.numPendingRequests + 1 }, msg)

/-- `Param::GenUpdateMsg`. -/
def genUpdateMsg (m : Mem α) (p : Param α) (copy : Bool) (idx : Nat) : Run (Param α × Msg α) := do
  let (offset, size) ← p.checkedSliceAt idx
  let msg : Msg α := { type := .kUpdate }
  let msg := msg.addFrame (.format [.int (flag copy)])
  let ptr := p.grad.ptr.add offset
  let msg := msg.addFrame (if copy then .data (m.read ptr size) else .format [.ptr (some ptr)])
  .ok ({ p with pendingUpdate := p.pendingUpdate.set idx true
                numPendingRequests := p.numPendingRequests + 1 }, msg)

/-- `Param::GenSyncMsg`. -/
def genSyncMsg (m : Mem α) (p : Param α) : Msg α :=
  let msg : Msg α := { type := .kSyncRequest }
  (msg.setTrgt (-1) p.id p.localVersion).addFrame (.data (m.read p.data.ptr p.size))

/-- `Param::HandlePutMsg` on a new parameter, with the message moved to the frame it stopped at.
`Setup` replaces `proto_`, and with it the multipliers stored there just before. -/
def handlePutMsg [Zero α] [One α] (m : Mem α) (msg : Msg α) : Run (Mem α × Param α × Msg α) := do
  let (size, _, _, ptr) ← msg.parseIFFP
  let size := size.toNat
  if size = 0 then .error .shape
  else
    let (m, p) := Param.setup m .default size
    match ptr with
    | none =>
      let (msg, next) := msg.nextFrame
      if next then
        let values ← msg.checkedFloats size
        .ok (m.write p.data.ptr values, p, msg)
      else .error .nextFrame
    | some ptr => .ok (m, { p with data := { p.data with ptr } }, msg)

/-- `Param::HandleGetMsg`. -/
def handleGetMsg (m : Mem α) (p : Param α) (msg : Msg α) : Run (Mem α × Param α × Msg α) := do
  let (copy, ptr) ← msg.parseIP
  let reply (msg : Msg α) : Msg α := { msg.swapAddr with type := .kRGet }
  if copy ≠ 0 then
    let msg ← msg.addFloats (m.read p.data.ptr p.size)
    .ok (m, p, reply msg)
  else if ptr = some p.data.ptr then .ok (m, p, reply msg)
  else
    match ptr with
    | none => .error .range
    | some ptr => .ok (m.write ptr (m.read p.data.ptr p.size), { p with data := { p.data with ptr } }, reply msg)

/-- `memcpy(dst, src, bytes)` between floats; the last one may be overwritten in part. What lies
behind a block is not modelled: where the number of bytes is at issue, `StaysInside` is asked for besides. -/
def memcpy (env : Env α) (m : Mem α) (dst src : Ptr) (bytes : Nat) : Mem α :=
  let whole := m.read src (bytes / 4)
  let part := if bytes % 4 = 0 then []
    else List.zipWith (env.mix (bytes % 4)) (m.read (src.add (bytes / 4)) 1) (m.read (dst.add (bytes / 4)) 1)
  m.write dst (whole ++ part)

/-- One pass of the second loop of `ParseUpdateMsgs`. -/
def parseUpdateMsg [Add α] (env : Env α) (s : Mem α × Param α × Bool) (msg : Int × Msg α) :
    Run (Mem α × Param α × Bool) := do
  let (m, p, reset) := s
  let (copy, msg) := msg
  let (msg, next) := msg.nextFrame
  if next then
    if copy ≠ 0 then
      let workerGrad ← msg.floats p.size
      if reset then .ok (m.write p.grad.ptr workerGrad, p, false)
      else .ok (m.write p.grad.ptr (List.zipWith (· + ·) (m.read p.grad.ptr p.size) workerGrad), p, reset)
    else
      let ptr ← msg.parseP
      if ptr = some p.grad.ptr then .ok (m, p, reset)
      else
        match ptr with
        | none => .error .range
        | some ptr =>
          let frame ← msg.frame
          .ok (memcpy env m ptr p.grad.ptr frame.size, { p with grad := { p.grad with ptr } }, reset)
  else .error .nextFrame

/-- A pass whose `memcpy` has more bytes than the blocks of the slice. -/
def Overruns (s : Mem α × Param α × Bool) (msg : Int × Msg α) : Prop :=
  msg.1 = 0 ∧ ∃ ptr frame, msg.2.nextFrame.1.parseP = .ok ptr ∧ ptr ≠ some s.2.1.grad.ptr ∧
    msg.2.nextFrame.1.frame = .ok frame ∧ 4 * s.2.1.size < frame.size

/-- No pass of the second loop of `ParseUpdateMsgs` leaves the blocks of the slice. -/
def StaysInside [Add α] (env : Env α) : List (Int × Msg α) → Mem α × Param α × Bool → Prop
  | [], _ => True
  | msg :: msgs, s => ¬ Overruns s msg ∧ ∀ t, parseUpdateMsg env s msg = .ok t → StaysInside env msgs t

/-- `Param::ParseUpdateMsgs`. -/
def parseUpdateMsgs [Add α] [Div α] [NatCast α] (env : Env α) (m : Mem α) (p : Param α) (msgs : List (Msg α)) :
    Run (Mem α × Param α) := do
  let copies ← msgs.mapM Msg.parseI
  let reset := copies.all (· ≠ 0)
  let (m, p, _) ← (copies.zip msgs).foldlM (parseUpdateMsg env) (m, p, reset)
  if 1 < msgs.length then
    .ok (m.write p.grad.ptr ((m.read p.grad.ptr p.size).map (· / (msgs.length : α))), p)
  else .ok (m, p)

/-- One pass of `GenUpdateResponseMsgs`: the request itself becomes the response. -/
def genUpdateResponseMsg (m : Mem α) (p : Param α) (msg : Msg α) : Run (Msg α) := do
  let msg := { msg.firstFrame.swapAddr with type := .kRUpdate }
  let copy ← msg.parseI
  if copy ≠ 0 then
    let (msg, _) := msg.nextFrame
    let _ ← msg.checkedFloats p.size
    .ok { msg with frames := msg.frames.set msg.cursor (.data (m.read p.data.ptr p.size)) }
  else .ok msg

/-- `Param::GenUpdateResponseMsgs`. -/
def genUpdateResponseMsgs (m : Mem α) (p : Param α) (msgs : List (Msg α)) : Run (List (Msg α)) :=
  msgs.mapM (p.genUpdateResponseMsg m)

/-- `Param::ParseResponseMsg`. -/
def parseResponseMsg (m : Mem α) (p : Param α) (msg : Msg α) (idx : Nat) : Run (Mem α) := do
  let copy ← msg.parseI
  let (msg, _) := msg.nextFrame
  if copy ≠ 0 then
    let (offset, size) ← p.sliceAt idx
    let values ← msg.checkedFloats size
    .ok (m.write (p.data.ptr.add offset) values)
  else .ok m

/-- `CHECK_EQ(pending[idx], true)`, and the flag cleared. -/
def answered (pending : List Bool) (idx : Nat) : Run (List Bool) :=
  match pending[idx]? with
  | some true => .ok (pending.set idx false)
  | some false => .error .pending
  | none => .error .range

/-- `(--num_pending_requests_) % num_slices_ == 0`. -/
def countDown (p : Param α) : Run (Param α × Bool) :=
  if p.numSlices = 0 then .error .divZero
  else
    let n := p.numPendingRequests - 1
    .ok ({ p with numPendingRequests := n }, n % p.numSlices = 0)

/-- `Param::ParseGetResponseMsg`. -/
def parseGetResponseMsg (m : Mem α) (p : Param α) (msg : Msg α) (idx : Nat) :
    Run (Mem α × Param α × Bool) := do
  let pendingGet ← answered p.pendingGet idx
  let p := { p with pendingGet }
  let m ← p.parseResponseMsg m msg idx
  let (p, last) ← p.countDown
  .ok (m, p, last)

/-- `Param::ParseUpdateResponseMsg`. -/
def parseUpdateResponseMsg (m : Mem α) (p : Param α) (msg : Msg α) (idx : Nat) :
    Run (Mem α × Param α × Bool) := do
  let pendingUpdate ← answered p.pendingUpdate idx
  let p := { p with pendingUpdate }
  let m ← p.parseResponseMsg m msg idx
  let (p, last) ← p.countDown
  .ok (m, p, last)

end Param

/-- `ParamEntry`: the shares of one parameter. They all hold the same data blob. -/
structure ParamEntry (α : Type) where
  numUpdate : Int
  nextVersion : Int
  numLocal : Int
  numTotal : Int
  shares : List (Param α)

namespace ParamEntry

/-- `ParamEntry()`. -/
def empty : ParamEntry α := ⟨0, -1, 0, 0, []⟩

/-- `ParamEntry(total, p)`, on the server side, where the two fields it leaves unset are not read. -/
def ofPut (total : Int) (p : Param α) : ParamEntry α := ⟨0, -1, 0, total, [p]⟩

/-- `ParamEntry::AddParam`. -/
def addParam (e : ParamEntry α) (isLocal : Bool) (p : Param α) : ParamEntry α :=
  { e with
    numLocal := e.numLocal + flag isLocal
    numTotal := e.numTotal + 1
    shares := if isLocal then e.shares ++ [p] else e.shares }

/-- `shares.at(0)`. -/
def front (e : ParamEntry α) : Run (Param α) :=
  match e.shares with
  | [] => .error .range
  | p :: _ => .ok p

/-- The entry after changes to `*shares.at(0)` outside its data blob. -/
def setFront (e : ParamEntry α) (p : Param α) : ParamEntry α := { e with shares := e.shares.set 0 p }

/-- `shares.at(0)->set_version(v)`: the version is in the data blob, so every share has it. -/
def setVersion (e : ParamEntry α) (v : Int) : ParamEntry α :=
  { e with shares := e.shares.map (·.setVersion v) }

end ParamEntry
end Singa
