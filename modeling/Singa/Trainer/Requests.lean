import Singa.Trainer.Server

/-!
# The requests of a stub

`GenMsgs` makes one message for each slice. Their frames, addresses and the
parameter's bookkeeping afterwards are given in closed form, for any parameter
with complete slice tables whose slices all have a server.
-/

namespace Singa
set_option autoImplicit false

open Memory

variable {α : Type}

namespace Param

/-- The slice tables have an entry for every slice. -/
structure Tabled (p : Param α) : Prop where
  offsets : p.sliceOffset.length = p.numSlices
  sizes : p.sliceSize.length = p.numSlices

def offsetOf (p : Param α) (idx : Nat) : Nat := p.sliceOffset.getD idx 0

def sizeOf (p : Param α) (idx : Nat) : Nat := p.sliceSize.getD idx 0

theorem Tabled.sliceAt {p : Param α} (h : p.Tabled) {idx : Nat} (lt : idx < p.numSlices) :
    p.sliceAt idx = .ok (p.offsetOf idx, p.sizeOf idx) := by
  have offset : idx < p.sliceOffset.length := h.offsets ▸ lt
  have size : idx < p.sliceSize.length := h.sizes ▸ lt
  simp [Param.sliceAt, offsetOf, sizeOf, offset, size]

theorem Tabled.checkedSliceAt {p : Param α} (h : p.Tabled) {idx : Nat} (lt : idx < p.numSlices) :
    p.checkedSliceAt idx = .ok (p.offsetOf idx, p.sizeOf idx) := by
  rw [Param.checkedSliceAt, if_pos lt, h.sliceAt lt]

theorem offsetsFrom_length (start : Nat) (sizes : List Nat) : (offsetsFrom start sizes).length = sizes.length := by
  induction sizes generalizing start with
  | nil => rfl
  | cons size sizes ih => simp [offsetsFrom, ih]

theorem offsetsFrom_getElem? (start : Nat) {sizes : List Nat} {idx : Nat} (lt : idx < sizes.length) :
    (offsetsFrom start sizes)[idx]? = some (start + (sizes.take idx).sum) := by
  induction sizes generalizing start idx with
  | nil => simp at lt
  | cons size sizes ih =>
    cases idx with
    | zero => simp [offsetsFrom]
    | succ idx =>
      have rest := ih (start + size) (Nat.lt_of_succ_lt_succ lt)
      simp [offsetsFrom, rest, Nat.add_assoc]

theorem Tiled.tabled {p : Param α} (h : p.Tiled) : p.Tabled :=
  ⟨by rw [h.offsets, offsetsFrom_length, h.count], h.count.symm⟩

theorem Tiled.offsetOf_eq {p : Param α} (h : p.Tiled) {idx : Nat} (lt : idx < p.numSlices) :
    p.offsetOf idx = (p.sliceSize.take idx).sum := by
  rw [h.count] at lt
  simp [offsetOf, h.offsets, offsetsFrom_getElem? 0 lt]

/-- A slice lies inside its parameter. -/
theorem Tiled.slice_le {p : Param α} (h : p.Tiled) {idx : Nat} (lt : idx < p.numSlices) :
    p.offsetOf idx + p.sizeOf idx ≤ p.size := by
  rw [h.offsetOf_eq lt, ← h.total]
  rw [h.count] at lt
  have split : (p.sliceSize.take (idx + 1)).sum = (p.sliceSize.take idx).sum + p.sizeOf idx := by
    rw [List.take_succ_eq_append_getElem lt, List.sum_append]
    simp [sizeOf, lt]
  rw [← split]
  exact List.Sublist.sum_le_sum (List.take_sublist _ _) (by simp)

/-- After an update request for each of the first `n` slices. -/
def requested (p : Param α) (n : Nat) : Param α :=
  { p with
    pendingUpdate := List.replicate n true ++ p.pendingUpdate.drop n
    numPendingRequests := p.numPendingRequests + n }

theorem requested_zero (p : Param α) : p.requested 0 = p := by
  simp [requested]

theorem flags_set {flags : List Bool} {n : Nat} (lt : n < flags.length) :
    (List.replicate n true ++ flags.drop n).set n true = List.replicate (n + 1) true ++ flags.drop (n + 1) := by
  rw [List.set_append_right _ _ (by simp), List.length_replicate, Nat.sub_self, List.drop_eq_getElem_cons lt,
    List.set_cons_zero, List.replicate_succ', List.append_assoc]
  rfl

theorem requested_succ {p : Param α} {n : Nat} (lt : n < p.pendingUpdate.length) :
    { p.requested n with
      pendingUpdate := (p.requested n).pendingUpdate.set n true
      numPendingRequests := (p.requested n).numPendingRequests + 1 } = p.requested (n + 1) := by
  simp only [requested, flags_set lt]
  push_cast
  rw [Int.add_assoc]

/-- After a get request for each of the first `n` slices. -/
def asked (p : Param α) (n : Nat) : Param α :=
  { p with
    pendingGet := List.replicate n true ++ p.pendingGet.drop n
    numPendingRequests := p.numPendingRequests + n }

theorem asked_zero (p : Param α) : p.asked 0 = p := by
  simp [asked]

theorem asked_succ {p : Param α} {n : Nat} (lt : n < p.pendingGet.length) :
    { p.asked n with
      pendingGet := (p.asked n).pendingGet.set n true
      numPendingRequests := (p.asked n).numPendingRequests + 1 } = p.asked (n + 1) := by
  simp only [asked, flags_set lt]
  push_cast
  rw [Int.add_assoc]

end Param

namespace Trainer

/-- The server of a slice inside its group. -/
def serverOf (t : Trainer) (slice : Nat) : Int := t.slice2server.getD slice 0

/-- Does a slice travel as a copy? -/
def copies (t : Trainer) (dstGrp server : Int) : Bool := t.cluster.procsIdOf dstGrp server ≠ t.procsId

/-- A message of `GenMsgs` for the slice `idx` of `p`, with the given type and frames. -/
def sliceMsg (t : Trainer) (type : MsgType) (version srcGrp dstGrp : Int) (p : Param α) (idx : Nat)
    (frames : List (Frame α)) : Msg α where
  src := ⟨srcGrp, t.procsId, .kStub⟩
  dst := ⟨dstGrp, t.serverOf (p.sliceStart + idx), .kServer⟩
  type := type
  paramId := p.owner
  sliceId := (p.sliceStart + idx : Nat)
  trgtVersion := version
  frames := frames

/-- The frames of an update request. -/
def updateFrames (m : Mem α) (p : Param α) (copy : Bool) (numLocal : Int) (idx : Nat) : List (Frame α) :=
  let ptr := p.grad.ptr.add (p.offsetOf idx)
  [.format [.int (flag copy)],
    if copy then .data (m.read ptr (p.sizeOf idx)) else .format [.ptr (some ptr)],
    .format [.int numLocal]]

/-- The update request for the slice `idx`. -/
def updateRequest (t : Trainer) (version : Int) (m : Mem α) (numLocal srcGrp dstGrp : Int) (p : Param α)
    (idx : Nat) : Msg α :=
  t.sliceMsg .kUpdate version srcGrp dstGrp p idx
    (updateFrames m p (t.copies dstGrp (t.serverOf (p.sliceStart + idx))) numLocal idx)

/-- The slices of `p` have a server each. -/
def Serves (t : Trainer) (p : Param α) : Prop := p.sliceStart + p.numSlices ≤ t.slice2server.length

theorem Serves.lookup {t : Trainer} {p : Param α} (h : t.Serves p) {idx : Nat} (lt : idx < p.numSlices) :
    t.slice2server[p.sliceStart + idx]? = some (t.serverOf (p.sliceStart + idx)) := by
  have bound : p.sliceStart + idx < t.slice2server.length := by
    unfold Serves at h
    omega
  simp [serverOf, bound]

/-- The server group that a worker group subscribes to. -/
def dstGrp (t : Trainer) (srcGrp : Int) : Int := srcGrp.tdiv t.cluster.proto.nworkerGroupsPerServerGroup

/-- **`GenMsgs`**: one message for each slice, when the parameter goes through the states `params`. -/
theorem genMsgs_spec {t : Trainer} {type : MsgType} {version : Int} {m : Mem α} {entry : ParamEntry α}
    {msg : Msg α} {p : Param α} {rest : List (Param α)} (params : Nat → Param α)
    (frames : Nat → List (Frame α)) (per : t.cluster.proto.nworkerGroupsPerServerGroup ≠ 0)
    (shares : entry.shares = p :: rest) (serves : t.Serves p) (first : params 0 = p)
    (start : ∀ i, (params i).sliceStart = p.sliceStart) (owner : ∀ i, (params i).owner = p.owner)
    (gen : ∀ i < p.numSlices, genMsg type m entry (params i)
      (t.copies (t.dstGrp msg.src.grp) (t.serverOf (p.sliceStart + i))) i =
        .ok (params (i + 1), { type := type, frames := frames i })) :
    t.genMsgs type version m entry msg = .ok (entry.setFront (params p.numSlices),
      (List.range p.numSlices).map fun i =>
        t.sliceMsg type version msg.src.grp (t.dstGrp msg.src.grp) p i (frames i)) := by
  have front : entry.front = .ok p := by rw [ParamEntry.front, shares]
  have pass (i : Nat) (lt : i < p.numSlices) :
      t.genMsgsAt type version m entry msg.src.grp (t.dstGrp msg.src.grp)
        (params i, (List.range i).map fun i =>
          t.sliceMsg type version msg.src.grp (t.dstGrp msg.src.grp) p i (frames i)) i =
        .ok (params (i + 1), (List.range (i + 1)).map fun i =>
          t.sliceMsg type version msg.src.grp (t.dstGrp msg.src.grp) p i (frames i)) := by
    simp only [genMsgsAt, start i, serves.lookup lt]
    refine Run.do_ok.mpr ⟨_, gen i lt, ?_⟩
    simp only [List.range_succ, List.map_append, List.map_singleton, sliceMsg, Msg.setTrgt, owner (i + 1)]
  have loop := Run.foldlM_range (fun i => (params i, (List.range i).map fun i =>
    t.sliceMsg type version msg.src.grp (t.dstGrp msg.src.grp) p i (frames i))) pass
  simp only [first] at loop
  rw [genMsgs, if_neg per]
  exact Run.do_ok.mpr ⟨p, front, Run.do_ok.mpr ⟨_, loop, rfl⟩⟩

/-- `GenMsgs` for an update: one request for each slice, and every slice pending. -/
theorem genMsgs_update {t : Trainer} {version : Int} {m : Mem α} {entry : ParamEntry α} {msg : Msg α}
    {p : Param α} {rest : List (Param α)} (per : t.cluster.proto.nworkerGroupsPerServerGroup ≠ 0)
    (shares : entry.shares = p :: rest) (tabled : p.Tabled) (serves : t.Serves p)
    (flags : p.pendingUpdate.length = p.numSlices) :
    t.genMsgs .kUpdate version m entry msg =
      .ok (entry.setFront (p.requested p.numSlices), (List.range p.numSlices).map
        (t.updateRequest version m entry.numLocal msg.src.grp (t.dstGrp msg.src.grp) p)) := by
  refine genMsgs_spec (fun i => p.requested i) _ per shares serves p.requested_zero (fun _ => rfl)
    (fun _ => rfl) fun i lt => ?_
  have slice : (p.requested i).checkedSliceAt i = .ok (p.offsetOf i, p.sizeOf i) := tabled.checkedSliceAt lt
  rw [← Param.requested_succ (by omega)]
  simp only [genMsg, Param.genUpdateMsg, slice]
  rfl

/-- The frames of a put request, with the floats that are copied. -/
def putFrames (p : Param α) (copy : Bool) (numTotal : Int) (idx : Nat) (copied : List α) : List (Frame α) :=
  let ptr := p.data.ptr.add (p.offsetOf idx)
  let head : Frame α := .format [.int (p.sizeOf idx), .float p.proto.learningRateMultiplier,
    .float p.proto.weightDecayMultiplier, .ptr (if copy then none else some ptr)]
  if copy then [head, .data copied, .format [.int numTotal]] else [head, .format [.int numTotal]]

/-- `GenMsgs` for a put: one request for each slice, and nothing pending. -/
theorem genMsgs_put {t : Trainer} {version : Int} {m : Mem α} {entry : ParamEntry α} {msg : Msg α}
    {p : Param α} {rest : List (Param α)} (per : t.cluster.proto.nworkerGroupsPerServerGroup ≠ 0)
    (shares : entry.shares = p :: rest) (tabled : p.Tabled) (serves : t.Serves p) (some : 0 < entry.numTotal)
    (copied : Nat → List α) (sent : ∀ i < p.numSlices,
      t.copies (t.dstGrp msg.src.grp) (t.serverOf (p.sliceStart + i)) = true →
        frameFloats (m.read (p.data.ptr.add (p.offsetOf i)) (p.sizeOf i)) = .ok (copied i)) :
    t.genMsgs .kPut version m entry msg = .ok (entry, (List.range p.numSlices).map fun i =>
      t.sliceMsg .kPut version msg.src.grp (t.dstGrp msg.src.grp) p i
        (putFrames p (t.copies (t.dstGrp msg.src.grp) (t.serverOf (p.sliceStart + i))) entry.numTotal i
          (copied i))) := by
  have same : entry.setFront p = entry := by
    rw [ParamEntry.setFront, shares, List.set_cons_zero, ← shares]
  rw [genMsgs_spec (fun _ => p) _ per shares serves rfl (fun _ => rfl) (fun _ => rfl) fun i lt => ?_, same]
  have slice := tabled.checkedSliceAt lt
  have floats := sent i lt
  cases copy : t.copies (t.dstGrp msg.src.grp) (t.serverOf (p.sliceStart + i)) with
  | true =>
    have made : p.genPutMsg m true i = .ok { type := .kPut, frames := [.format [.int (p.sizeOf i),
        .float p.proto.learningRateMultiplier, .float p.proto.weightDecayMultiplier, .ptr none], .data (copied i)] } :=
      Run.do_ok.mpr ⟨_, slice, Run.do_ok.mpr ⟨_, floats copy, rfl⟩⟩
    simp only [genMsg, some, if_true, made]
    rfl
  | false =>
    simp only [genMsg, some, if_true, Param.genPutMsg, slice]
    rfl

/-- The frame of a get request. -/
def getFrames (p : Param α) (copy : Bool) (idx : Nat) : List (Frame α) :=
  [.format [.int (flag copy), .ptr (some (p.data.ptr.add (p.offsetOf idx)))]]

/-- `GenMsgs` for a get: one request for each slice, and every slice pending. -/
theorem genMsgs_get {t : Trainer} {version : Int} {m : Mem α} {entry : ParamEntry α} {msg : Msg α}
    {p : Param α} {rest : List (Param α)} (per : t.cluster.proto.nworkerGroupsPerServerGroup ≠ 0)
    (shares : entry.shares = p :: rest) (tabled : p.Tabled) (serves : t.Serves p)
    (flags : p.pendingGet.length = p.numSlices) :
    t.genMsgs .kGet version m entry msg = .ok (entry.setFront (p.asked p.numSlices),
      (List.range p.numSlices).map fun i => t.sliceMsg .kGet version msg.src.grp (t.dstGrp msg.src.grp) p i
        (getFrames p (t.copies (t.dstGrp msg.src.grp) (t.serverOf (p.sliceStart + i))) i)) := by
  refine genMsgs_spec (fun i => p.asked i) _ per shares serves p.asked_zero (fun _ => rfl) (fun _ => rfl)
    fun i lt => ?_
  have slice : (p.asked i).checkedSliceAt i = .ok (p.offsetOf i, p.sizeOf i) := tabled.checkedSliceAt lt
  rw [← Param.asked_succ (by omega)]
  simp only [genMsg, Param.genGetMsg, slice]
  rfl

section Update

variable [Add α] [Div α] [IntCast α] {t : Trainer} {m : Mem α} {entry : ParamEntry α} {msg : Msg α}

/-- `HandleUpdate` before the last share. -/
theorem handleUpdate_wait (few : entry.numUpdate + 1 < entry.numLocal) :
    t.handleUpdate m entry msg = .ok (m, { entry with numUpdate := entry.numUpdate + 1 }, []) := by
  rw [handleUpdate]
  exact if_neg (not_le.mpr few)

/-- `HandleUpdate` at the last share: one request for each slice. -/
theorem handleUpdate_send {m' : Mem α} {p : Param α} {rest : List (Param α)}
    (all : entry.numLocal ≤ entry.numUpdate + 1)
    (averaged : (if 1 < entry.numLocal then averageGrad m { entry with numUpdate := entry.numUpdate + 1 }
      else .ok m) = .ok m')
    (per : t.cluster.proto.nworkerGroupsPerServerGroup ≠ 0) (shares : entry.shares = p :: rest)
    (tabled : p.Tabled) (serves : t.Serves p) (flags : p.pendingUpdate.length = p.numSlices) :
    t.handleUpdate m entry msg = .ok (m', { entry.setFront (p.requested p.numSlices) with numUpdate := 0 },
      (List.range p.numSlices).map
        (t.updateRequest msg.trgtVersion m' entry.numLocal msg.src.grp (t.dstGrp msg.src.grp) p)) := by
  have gen : t.genMsgs .kUpdate msg.trgtVersion m' { entry with numUpdate := entry.numUpdate + 1 } msg = _ :=
    genMsgs_update per shares tabled serves flags
  rw [handleUpdate]
  by_cases several : 1 < entry.numLocal
  · simp only [several, if_true] at averaged
    simp only [all, several, if_true]
    exact Run.do_ok.mpr ⟨m', averaged, Run.do_ok.mpr ⟨_, gen, rfl⟩⟩
  · simp only [several, if_false] at averaged
    cases averaged
    simp only [all, several, if_true, if_false]
    exact Run.do_ok.mpr ⟨m, rfl, Run.do_ok.mpr ⟨_, gen, rfl⟩⟩

end Update

end Trainer

/-! ## Responses -/

namespace Param

variable {m : Mem α} {p : Param α} {msg : Msg α} {idx : Nat} {args : List (Arg α)} {more : List (Frame α)}

theorem parseResponseMsg_copied {values : List α} (tabled : p.Tabled) (lt : idx < p.numSlices)
    (cursor : msg.cursor = 0) (frames : msg.frames = .format (.int (flag true) :: args) :: .data values :: more)
    (length : values.length = p.sizeOf idx) :
    p.parseResponseMsg m msg idx = .ok (m.write (p.data.ptr.add (p.offsetOf idx)) values) := by
  have parsed : msg.parseI = .ok (flag true) := by
    simp [Msg.parseI, Msg.args, Msg.frame, frames, cursor, bind, Except.bind]
  have floats : msg.nextFrame.1.checkedFloats (p.sizeOf idx) = .ok values := by
    simp [Msg.checkedFloats, Msg.floats, Msg.frame, Msg.nextFrame, frames, cursor, Frame.size, length, bind,
      Except.bind, List.take_of_length_le]
  have copies : flag true ≠ 0 := by decide
  refine Run.do_ok.mpr ⟨_, parsed, ?_⟩
  simp only [copies, ne_eq, not_false_eq_true, if_true]
  exact Run.do_ok.mpr ⟨_, tabled.sliceAt lt, Run.do_ok.mpr ⟨_, floats, rfl⟩⟩

theorem parseResponseMsg_shared (cursor : msg.cursor = 0)
    (frames : msg.frames = .format (.int (flag false) :: args) :: more) : p.parseResponseMsg m msg idx = .ok m := by
  have parsed : msg.parseI = .ok (flag false) := by
    simp [Msg.parseI, Msg.args, Msg.frame, frames, cursor, bind, Except.bind]
  exact Run.do_ok.mpr ⟨_, parsed, rfl⟩

theorem answered_ok {pending : List Bool} (waits : pending[idx]? = some true) :
    answered pending idx = .ok (pending.set idx false) := by
  rw [answered, waits]

theorem countDown_ok (lt : idx < p.numSlices) : p.countDown =
    .ok ({ p with numPendingRequests := p.numPendingRequests - 1 },
      decide ((p.numPendingRequests - 1) % p.numSlices = 0)) := by
  rw [countDown, if_neg (by omega)]

end Param

namespace Trainer

variable {m m' : Mem α} {entry : ParamEntry α} {p : Param α} {rest : List (Param α)} {msg : Msg α} {idx : Nat}

theorem sliceIdx_ok (here : msg.sliceId = (p.sliceStart + idx : Nat)) : sliceIdx p msg = .ok idx := by
  rw [sliceIdx, if_neg (by omega), here]
  congr
  omega

/-- The parameter after the response to a get of the slice `idx`. -/
def gotSlice (p : Param α) (idx : Nat) : Param α :=
  { p with pendingGet := p.pendingGet.set idx false, numPendingRequests := p.numPendingRequests - 1 }

/-- **`HandleGetResponse`** on a slice that is pending. -/
theorem handleGetResponse_ok (shares : entry.shares = p :: rest) (lt : idx < p.numSlices)
    (here : msg.sliceId = (p.sliceStart + idx : Nat)) (waits : p.pendingGet[idx]? = some true)
    (parsed : Param.parseResponseMsg m { p with pendingGet := p.pendingGet.set idx false } msg idx = .ok m') :
    handleGetResponse m entry msg = .ok (m', if (p.numPendingRequests - 1) % p.numSlices = 0
      then (entry.setFront (gotSlice p idx)).setVersion msg.trgtVersion else entry.setFront (gotSlice p idx)) := by
  have front : entry.front = .ok p := by rw [ParamEntry.front, shares]
  have response : p.parseGetResponseMsg m msg idx =
      .ok (m', gotSlice p idx, decide ((p.numPendingRequests - 1) % p.numSlices = 0)) := by
    refine Run.do_ok.mpr ⟨_, Param.answered_ok waits, Run.do_ok.mpr ⟨_, parsed, ?_⟩⟩
    have down := Param.countDown_ok (p := { p with pendingGet := p.pendingGet.set idx false }) lt
    exact Run.do_ok.mpr ⟨_, down, rfl⟩
  refine Run.do_ok.mpr ⟨_, front, Run.do_ok.mpr ⟨_, sliceIdx_ok here, Run.do_ok.mpr ⟨_, response, ?_⟩⟩⟩
  simp only [decide_eq_true_eq]

/-- The parameter after the response to the update of the slice `idx`. -/
def updatedSlice (p : Param α) (idx : Nat) : Param α :=
  { p with pendingUpdate := p.pendingUpdate.set idx false, numPendingRequests := p.numPendingRequests - 1 }

/-- **`HandleUpdateResponse`** on a slice that is pending. -/
theorem handleUpdateResponse_ok (shares : entry.shares = p :: rest) (lt : idx < p.numSlices)
    (here : msg.sliceId = (p.sliceStart + idx : Nat)) (waits : p.pendingUpdate[idx]? = some true)
    (parsed : Param.parseResponseMsg m { p with pendingUpdate := p.pendingUpdate.set idx false } msg idx = .ok m') :
    handleUpdateResponse m entry msg = .ok (m', if (p.numPendingRequests - 1) % p.numSlices = 0
      then (entry.setFront (updatedSlice p idx)).setVersion msg.trgtVersion else entry.setFront (updatedSlice p idx)) := by
  have front : entry.front = .ok p := by rw [ParamEntry.front, shares]
  have response : p.parseUpdateResponseMsg m msg idx =
      .ok (m', updatedSlice p idx, decide ((p.numPendingRequests - 1) % p.numSlices = 0)) := by
    refine Run.do_ok.mpr ⟨_, Param.answered_ok waits, Run.do_ok.mpr ⟨_, parsed, ?_⟩⟩
    have down := Param.countDown_ok (p := { p with pendingUpdate := p.pendingUpdate.set idx false }) lt
    exact Run.do_ok.mpr ⟨_, down, rfl⟩
  refine Run.do_ok.mpr ⟨_, front, Run.do_ok.mpr ⟨_, sliceIdx_ok here, Run.do_ok.mpr ⟨_, response, ?_⟩⟩⟩
  simp only [decide_eq_true_eq]

end Trainer
end Singa
