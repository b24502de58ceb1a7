import Singa.Utils.ParamMsg

/-!
# `trainer/trainer.cc`: the stub

The stub of a process collects the requests of its workers for a parameter and
turns them into one message for each slice, sent to the server that keeps the
slice; the responses come back to the entry of the parameter's worker group.
-/

namespace Singa
set_option autoImplicit false

open Memory

variable {α : Type}

/-- `Cluster`: its configuration, and `ProcsIDOf(grp, id, kServer)`. -/
structure Cluster where
  proto : ClusterProto
  procsIdOf : Int → Int → Int

/-- `Trainer::Hash`. -/
def hash (grpId paramId : Int) : Int := grpId * 997 + paramId

/-- The fields of `Trainer` that its message handlers only read. -/
structure Trainer where
  cluster : Cluster
  procsId : Int
  slice2server : List Int

namespace Trainer

/-- The message for one slice, and the parameter after it. -/
def genMsg (type : MsgType) (m : Mem α) (entry : ParamEntry α) (p : Param α) (copy : Bool) (idx : Nat) :
    Run (Param α × Msg α) :=
  match type with
  | .kPut =>
    if 0 < entry.numTotal then do
      let msg ← p.genPutMsg m copy idx
      .ok (p, msg.addFrame (.format [.int entry.numTotal]))
    else .error .numTotal
  | .kGet => p.genGetMsg copy idx
  | .kUpdate => do
    let (p, msg) ← p.genUpdateMsg m copy idx
    .ok (p, msg.addFrame (.format [.int entry.numLocal]))
  | _ => .error .wrongType

/-- One pass of the loop of `GenMsgs`. -/
def genMsgsAt (t : Trainer) (type : MsgType) (version : Int) (m : Mem α) (entry : ParamEntry α)
    (srcGrp dstGrp : Int) (s : Param α × List (Msg α)) (idx : Nat) : Run (Param α × List (Msg α)) := do
  let (p, ret) := s
  let sliceId := p.sliceStart + idx
  match t.slice2server[sliceId]? with
  | none => .error .range
  | some server =>
    let procs := t.cluster.procsIdOf dstGrp server
    let (p, msg) ← genMsg type m entry p (procs ≠ t.procsId) idx
    let msg := { msg.setTrgt p.owner sliceId version with
      src := ⟨srcGrp, t.procsId, .kStub⟩, dst := ⟨dstGrp, server, .kServer⟩ }
    .ok (p, ret ++ [msg])

/-- `Trainer::GenMsgs`. -/
def genMsgs (t : Trainer) (type : MsgType) (version : Int) (m : Mem α) (entry : ParamEntry α) (msg : Msg α) :
    Run (ParamEntry α × List (Msg α)) := do
  let srcGrp := msg.src.grp
  let per := t.cluster.proto.nworkerGroupsPerServerGroup
  if per = 0 then .error .divZero
  else
    let dstGrp := srcGrp.tdiv per
    let p ← entry.front
    let (p, ret) ← (List.range p.numSlices).foldlM (t.genMsgsAt type version m entry srcGrp dstGrp) (p, [])
    .ok (entry.setFront p, ret)

/-- `Trainer::HandleGet`. -/
def handleGet (t : Trainer) (m : Mem α) (entry : ParamEntry α) (msg : Msg α) :
    Run (ParamEntry α × List (Msg α)) :=
  let version := msg.trgtVersion
  if entry.nextVersion < version then
    t.genMsgs .kGet version m { entry with nextVersion := version } msg
  else .ok (entry, [])

/-- `sum += grad` for one more share. -/
def addGrad [Add α] (sum : Ptr) (size : Nat) (m : Mem α) (p : Param α) : Mem α :=
  m.write sum (List.zipWith (· + ·) (m.read sum size) (m.read p.grad.ptr size))

/-- The gradients of all shares added up in the first one's and divided by `num_total`. -/
def averageGrad [Add α] [Div α] [IntCast α] (m : Mem α) (entry : ParamEntry α) : Run (Mem α) := do
  let p ← entry.front
  let m := entry.shares.tail.foldl (addGrad p.grad.ptr p.size) m
  .ok (m.write p.grad.ptr ((m.read p.grad.ptr p.size).map (· / (entry.numTotal : α))))

/-- `Trainer::HandleUpdate`. -/
def handleUpdate [Add α] [Div α] [IntCast α] (t : Trainer) (m : Mem α) (entry : ParamEntry α) (msg : Msg α) :
    Run (Mem α × ParamEntry α × List (Msg α)) := do
  let entry := { entry with numUpdate := entry.numUpdate + 1 }
  if entry.numLocal ≤ entry.numUpdate then
    -- average local gradient
    let m ← if 1 < entry.numLocal then averageGrad m entry else .ok m
    let (entry, ret) ← t.genMsgs .kUpdate msg.trgtVersion m entry msg
    .ok (m, { entry with numUpdate := 0 }, ret)
  else .ok (m, entry, [])

/-- `Trainer::HandlePut`. -/
def handlePut (t : Trainer) (m : Mem α) (entry : ParamEntry α) (msg : Msg α) :
    Run (ParamEntry α × List (Msg α)) :=
  t.genMsgs .kPut msg.trgtVersion m entry msg

/-- `sliceid - param->slice_start()` as an index. -/
def sliceIdx (p : Param α) (msg : Msg α) : Run Nat :=
  if msg.sliceId < p.sliceStart then .error .range else .ok (msg.sliceId - p.sliceStart).toNat

/-- `Trainer::HandleGetResponse`. -/
def handleGetResponse (m : Mem α) (entry : ParamEntry α) (msg : Msg α) : Run (Mem α × ParamEntry α) := do
  let p ← entry.front
  let idx ← sliceIdx p msg
  let (m, p, last) ← p.parseGetResponseMsg m msg idx
  let entry := entry.setFront p
  .ok (m, if last then entry.setVersion msg.trgtVersion else entry)

/-- `Trainer::HandleUpdateResponse`. -/
def handleUpdateResponse (m : Mem α) (entry : ParamEntry α) (msg : Msg α) : Run (Mem α × ParamEntry α) := do
  let p ← entry.front
  let idx ← sliceIdx p msg
  let (m, p, last) ← p.parseUpdateResponseMsg m msg idx
  let entry := entry.setFront p
  .ok (m, if last then entry.setVersion msg.trgtVersion else entry)

/-- `worker_shard_` or `server_shard_` of a process. -/
abbrev Shard (α : Type) := Int → Option (ParamEntry α)

/-- `Trainer::HandleLocalMsg`; an unknown type is only logged. -/
def handleLocalMsg [Add α] [Div α] [IntCast α] (t : Trainer) (m : Mem α) (workerShard : Shard α) (msg : Msg α) :
    Run (Mem α × Shard α × List (Msg α)) :=
  let at_ (grp : Int) (handle : ParamEntry α → Run (Mem α × ParamEntry α × List (Msg α))) :
      Run (Mem α × Shard α × List (Msg α)) :=
    let key := hash grp msg.paramId
    match workerShard key with
    | none => .error .missing
    | some entry => do
      let (m, entry, ret) ← handle entry
      .ok (m, Function.update workerShard key (some entry), ret)
  match msg.type with
  | .kUpdate => at_ msg.src.grp fun entry => t.handleUpdate m entry msg
  | .kRUpdate => at_ msg.dst.grp fun entry => do
    let (m, entry) ← handleUpdateResponse m entry msg
    .ok (m, entry, [])
  | .kGet => at_ msg.src.grp fun entry => do
    let (entry, ret) ← t.handleGet m entry msg
    .ok (m, entry, ret)
  | .kRGet => at_ msg.dst.grp fun entry => do
    let (m, entry) ← handleGetResponse m entry msg
    .ok (m, entry, [])
  | .kPut => at_ msg.src.grp fun entry => do
    let (entry, ret) ← t.handlePut m entry msg
    .ok (m, entry, ret)
  | _ => .ok (m, workerShard, [])

section Local

variable [Add α] [Div α] [IntCast α] {t : Trainer} {m m' : Mem α} {shard : Shard α} {msg : Msg α}
  {entry entry' : ParamEntry α} {out : List (Msg α)}

theorem handleLocalMsg_put (type : msg.type = .kPut) (found : shard (hash msg.src.grp msg.paramId) = some entry)
    (run : t.handlePut m entry msg = .ok (entry', out)) : t.handleLocalMsg m shard msg =
      .ok (m, Function.update shard (hash msg.src.grp msg.paramId) (some entry'), out) := by
  simp only [handleLocalMsg, type, found]
  exact Run.do_ok.mpr ⟨_, Run.do_ok.mpr ⟨_, run, rfl⟩, rfl⟩

theorem handleLocalMsg_get (type : msg.type = .kGet) (found : shard (hash msg.src.grp msg.paramId) = some entry)
    (run : t.handleGet m entry msg = .ok (entry', out)) : t.handleLocalMsg m shard msg =
      .ok (m, Function.update shard (hash msg.src.grp msg.paramId) (some entry'), out) := by
  simp only [handleLocalMsg, type, found]
  exact Run.do_ok.mpr ⟨_, Run.do_ok.mpr ⟨_, run, rfl⟩, rfl⟩

theorem handleLocalMsg_update (type : msg.type = .kUpdate) (found : shard (hash msg.src.grp msg.paramId) = some entry)
    (run : t.handleUpdate m entry msg = .ok (m', entry', out)) : t.handleLocalMsg m shard msg =
      .ok (m', Function.update shard (hash msg.src.grp msg.paramId) (some entry'), out) := by
  simp only [handleLocalMsg, type, found]
  exact Run.do_ok.mpr ⟨_, run, rfl⟩

theorem handleLocalMsg_rupdate (type : msg.type = .kRUpdate) (found : shard (hash msg.dst.grp msg.paramId) = some entry)
    (run : handleUpdateResponse m entry msg = .ok (m', entry')) : t.handleLocalMsg m shard msg =
      .ok (m', Function.update shard (hash msg.dst.grp msg.paramId) (some entry'), []) := by
  simp only [handleLocalMsg, type, found]
  exact Run.do_ok.mpr ⟨_, Run.do_ok.mpr ⟨_, run, rfl⟩, rfl⟩

theorem handleLocalMsg_rget (type : msg.type = .kRGet) (found : shard (hash msg.dst.grp msg.paramId) = some entry)
    (run : handleGetResponse m entry msg = .ok (m', entry')) : t.handleLocalMsg m shard msg =
      .ok (m', Function.update shard (hash msg.dst.grp msg.paramId) (some entry'), []) := by
  simp only [handleLocalMsg, type, found]
  exact Run.do_ok.mpr ⟨_, Run.do_ok.mpr ⟨_, run, rfl⟩, rfl⟩

end Local

end Trainer
end Singa
