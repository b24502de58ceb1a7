import Singa.Trainer.Stub

/-!
# `trainer/server.cc`: the server

A server keeps the slices that were put to it, each as a parameter of its own in
the shard of its process. It applies the updates of its workers once the
requests of all shares have come in, and synchronises the slices with the
replicas of the other server groups.
-/

namespace Singa
set_option autoImplicit false

open Memory Trainer

variable {α : Type}

/-- The fields of `Server`, and the two locals of `Run`. -/
structure Server (α : Type) where
  grpId : Int
  id : Int
  slice2group : List Int
  bufferRequests : Int → List (Msg α)
  lastData : Int → Option (List α)
  /-- Slice ids of `master_params`. -/
  masterParams : List Int
  syncEntry : Nat

/-- What a method of `Server` works on: the memory and the shard of its process, and its own fields. -/
structure Host (α : Type) where
  mem : Mem α
  shard : Shard α
  server : Server α

namespace Host

/-- `shard_->at(slice)->shares.at(0)`, with the entry. -/
def paramAt (h : Host α) (slice : Int) : Run (ParamEntry α × Param α) :=
  match h.shard slice with
  | none => .error .missing
  | some entry => do
    let p ← entry.front
    .ok (entry, p)

theorem paramAt_ok {h : Host α} {slice : Int} {entry : ParamEntry α} {p : Param α}
    (found : h.shard slice = some entry) (shares : entry.shares = [p]) : h.paramAt slice = .ok (entry, p) := by
  simp [paramAt, found, ParamEntry.front, shares, bind, Except.bind]

def setEntry (h : Host α) (slice : Int) (entry : ParamEntry α) : Host α :=
  { h with shard := Function.update h.shard slice (some entry) }

/-- `slice2group_[slice] == grp_id_`. -/
def masters (h : Host α) (slice : Int) : Run Bool :=
  match if slice < 0 then none else h.server.slice2group[slice.toNat]? with
  | some grp => .ok (grp = h.server.grpId)
  | none => .error .range

/-- `Server::GenSyncMsgs` for the slice `slice`: one message for every other group, and the
parameter's version caught up. -/
def genSyncMsgs (cluster : Cluster) (h : Host α) (slice : Int) : Run (Host α × List (Msg α)) := do
  let (entry, p) ← h.paramAt slice
  let msg := p.genSyncMsg h.mem
  let others := (List.range cluster.proto.nserverGroups).filter fun (i : Nat) => (i : Int) ≠ h.server.grpId
  let ret := others.map fun (i : Nat) =>
    { msg with dst := ⟨i, 0, .kServer⟩, src := ⟨h.server.grpId, h.server.id, .kServer⟩ }
  .ok (if others = [] then h else h.setEntry slice (entry.setVersion p.localVersion), ret)

/-- The number of shares of the parameter in a worker group, from the frame after the current one. -/
def numShares (msg : Msg α) : Run Int :=
  let (msg, next) := msg.nextFrame
  if next then msg.parseI else .ok 1

/-- The end of `HandlePut`: a blob for the synchronisation between groups. -/
def allocLastData (cluster : Cluster) (h : Host α) (slice : Int) (values : List α) : Run (Host α) :=
  if 1 < cluster.proto.nserverGroups then do
    if ← h.masters slice then .ok h
    else
      .ok { h with server := { h.server with
        lastData := Function.update h.server.lastData slice (some values) } }
  else .ok h

/-- `Server::HandlePut`. -/
def handlePut [Zero α] [One α] (cluster : Cluster) (h : Host α) (msg : Msg α) : Run (Host α) := do
  let slice := msg.sliceId
  match h.shard slice with
  | some _ => .error .putTwice
  | none =>
    let (mem, p, moved) ← Param.handlePutMsg h.mem msg
    let numShares ← numShares moved
    let p := ((p.setVersion msg.trgtVersion).setLocalVersion msg.trgtVersion).setId slice
    let h := { h with mem }.setEntry slice (ParamEntry.ofPut numShares p)
    h.allocLastData cluster slice (mem.read p.data.ptr p.size)

/-- `Server::HandleGet`: the reply, or the request itself to be queued again. -/
def handleGet (h : Host α) (msg : Msg α) : Run (Host α × Msg α) := do
  let (entry, p) ← h.paramAt msg.sliceId
  if p.version < msg.trgtVersion then .ok (h, msg)
  else
    let (mem, p, reply) ← p.handleGetMsg h.mem msg
    .ok ({ h with mem }.setEntry msg.sliceId (entry.setFront p),
      reply.setTrgt msg.paramId msg.sliceId p.version)

/-- `updater_->Update(step, param)`. -/
def updateParam (env : Env α) (step : Int) (m : Mem α) (p : Param α) : Mem α × Param α :=
  let (data, grad, history) := env.update step p.proto (m.read p.data.ptr p.size)
    (m.read p.grad.ptr p.size) p.history
  ((m.write p.data.ptr (data.take p.size)).write p.grad.ptr (grad.take p.size), { p with history })

/-- `Server::HandleUpdate`: the responses, none as long as requests of some shares are missing. -/
def handleUpdate [Add α] [Div α] [NatCast α] (env : Env α) (h : Host α) (msg : Msg α) :
    Run (Host α × List (Msg α)) := do
  let slice := msg.sliceId
  let (entry, p) ← h.paramAt slice
  let requests := h.server.bufferRequests slice ++ [msg.firstFrame]
  let numUpdate ← msg.lastFrame.parseI
  let entry := { entry with numUpdate := entry.numUpdate + numUpdate }
  let buffered (requests : List (Msg α)) : Server α :=
    { h.server with bufferRequests := Function.update h.server.bufferRequests slice requests }
  if entry.numTotal ≤ entry.numUpdate then
    if entry.numUpdate = entry.numTotal then
      -- extract and aggregate gradients
      let (mem, p) ← p.parseUpdateMsgs env h.mem requests
      let (mem, p) := updateParam env msg.trgtVersion mem p
      let p := p.setLocalVersion (p.localVersion + 1)
      let responses ← p.genUpdateResponseMsgs mem requests
      let ret := responses.map (·.setTrgt msg.paramId msg.sliceId p.localVersion)
      let entry := { entry.setFront p with numUpdate := 0 }
      .ok ({ h with mem, server := buffered [] }.setEntry slice entry, ret)
    else .error .numUpdate
  else .ok ({ h with server := buffered requests }.setEntry slice entry, [])

/-- `Server::HandleSyncRequest`. -/
def handleSyncRequest [Add α] [Sub α] (h : Host α) (msg : Msg α) : Run (Host α × Option (Msg α)) := do
  let slice := msg.sliceId
  let (entry, p) ← h.paramAt slice
  let tmp ← msg.checkedFloats p.size
  let cur := h.mem.read p.data.ptr p.size
  if ← h.masters slice then
    -- recv sync msg on slice I am mastering
    let mem := h.mem.write p.data.ptr (List.zipWith (· + ·) cur tmp)
    let p := p.setLocalVersion (p.localVersion + 1)
    .ok ({ h with mem }.setEntry slice (entry.setFront p), none)
  else
    -- recv sync msg on slice mastered by others
    match h.server.lastData p.id with
    | none => .error .range
    | some prev =>
      let diff := List.zipWith (· - ·) cur prev
      let (moved, _) := msg.nextFrame
      let bandwidth ← moved.parseI
      let store (cur prev : List α) : Host α :=
        { h with
          mem := h.mem.write p.data.ptr cur
          server := { h.server with lastData := Function.update h.server.lastData p.id (some prev) } }
      if 0 < bandwidth then
        -- send back my updates to the server group mastering this param
        let response : Msg α := { src := msg.dst, dst := msg.src, type := .kSyncRequest }
        let response := (response.setTrgt 0 p.id p.version).addFrame (.data diff)
        let prev := List.zipWith (· + ·) diff tmp
        .ok (store prev prev, some response)
      else
        -- no bandwidth, aggregate my updates for next sync
        .ok (store (List.zipWith (· + ·) tmp diff) tmp, none)

/-- The branch of `Server::Run` for a reminder. -/
def handleSyncReminder (cluster : Cluster) (h : Host α) : Run (Host α × List (Msg α)) :=
  match h.server.masterParams[h.server.syncEntry]? with
  | none => .ok (h, [])
  | some slice => do
    let (_, p) ← h.paramAt slice
    if (cluster.proto.nserverGroups : Int) ≤ |p.localVersion - p.version| then
      let (h, ret) ← genSyncMsgs cluster h slice
      let syncEntry := (h.server.syncEntry + 1) % h.server.masterParams.length
      .ok ({ h with server := { h.server with syncEntry } }, ret)
    else .ok (h, [])

/-- One message received by `Server::Run`, and the messages it sends. -/
def receive [Add α] [Sub α] [Div α] [NatCast α] [Zero α] [One α] (cluster : Cluster) (env : Env α)
    (h : Host α) (msg : Msg α) : Run (Host α × List (Msg α)) :=
  let slice := msg.sliceId
  match msg.type with
  | .kPut => do
    let h ← handlePut cluster h msg
    if ← h.masters slice then
      .ok ({ h with server := { h.server with masterParams := h.server.masterParams ++ [slice] } }, [])
    else .ok (h, [])
  | type =>
    match h.shard slice with
    -- delay the processing by re-queue the msg
    | none => .ok (h, [msg])
    | some _ =>
      match type with
      | .kSyncReminder => handleSyncReminder cluster h
      | .kGet => do
        let (h, reply) ← handleGet h msg
        .ok (h, [reply])
      | .kUpdate => handleUpdate env h msg
      | .kSyncRequest => do
        let (h, response) ← handleSyncRequest h msg
        .ok (h, response.toList)
      | _ => .ok (h, [])

end Host
end Singa
