import Singa.Base.Vec
import Singa.Trainer.Requests

/-!
# Update requests at a server

`Request` is the layout of an update request on the wire. On such requests
`ParseUpdateMsgs` and `GenUpdateResponseMsgs` never fail one of their checks,
whatever the mixture of copied and shared gradients, so all that decides
`Server::HandleUpdate` is the count of shares: below the total the request is
buffered, at the total it fires, above it the `CHECK_EQ` aborts.
-/

namespace Singa
set_option autoImplicit false

open Memory

variable {α : Type}

/-- The second frame of an update request for a slice of `size` floats. -/
inductive Payload (size : Nat) : Bool → Frame α → Prop
  | copied (values : List α) (length : values.length = size) : Payload size true (.data values)
  | shared (ptr : Ptr) : Payload size false (.format [.ptr (some ptr)])

/-- An update request for a slice of `size` floats that stands for `numLocal` shares. -/
structure Request (size : Nat) (numLocal : Int) (msg : Msg α) : Prop where
  cursor : msg.cursor = 0
  layout : ∃ copy payload, Payload size copy payload ∧
    msg.frames = [.format [.int (flag copy)], payload, .format [.int numLocal]]

theorem Trainer.updateRequest_request (t : Trainer) (version : Int) (m : Mem α) (numLocal srcGrp dstGrp : Int)
    (p : Param α) (idx : Nat) :
    Request (p.sizeOf idx) numLocal (t.updateRequest version m numLocal srcGrp dstGrp p idx) := by
  refine ⟨rfl, t.copies dstGrp (t.serverOf (p.sliceStart + idx)), _, ?_, rfl⟩
  cases t.copies dstGrp (t.serverOf (p.sliceStart + idx))
  · exact .shared _
  · exact .copied _ (by simp)

namespace Request

variable {size : Nat} {numLocal : Int} {msg : Msg α}

theorem parseI_first (h : Request size numLocal msg) : ∃ copy, msg.parseI = .ok (flag copy) ∧
    ∃ payload, Payload size copy payload ∧
      msg.frames = [.format [.int (flag copy)], payload, .format [.int numLocal]] := by
  obtain ⟨copy, payload, kind, frames⟩ := h.layout
  refine ⟨copy, ?_, payload, kind, frames⟩
  simp [Msg.parseI, Msg.args, Msg.frame, frames, h.cursor]
  rfl

/-- The count of shares in the last frame. -/
theorem parseI_last (h : Request size numLocal msg) : msg.lastFrame.parseI = .ok numLocal := by
  obtain ⟨copy, payload, -, frames⟩ := h.layout
  simp [Msg.parseI, Msg.args, Msg.frame, Msg.lastFrame, frames]
  rfl

theorem firstFrame (h : Request size numLocal msg) : msg.firstFrame = msg := by
  cases msg
  have := h.cursor
  simp_all [Msg.firstFrame]

end Request

namespace Param

/-- Equal but for the place of the gradient. -/
def SameButGrad (p p' : Param α) : Prop := p' = { p with grad := { p.grad with ptr := p'.grad.ptr } }

theorem SameButGrad.refl (p : Param α) : SameButGrad p p := rfl

theorem SameButGrad.trans {p p' p'' : Param α} (first : SameButGrad p p') (second : SameButGrad p' p'') :
    SameButGrad p p'' := by
  unfold SameButGrad at *
  rw [second, first]

theorem SameButGrad.size_eq {p p' : Param α} (h : SameButGrad p p') : p'.size = p.size := by
  rw [h]
  rfl

section Parse

variable [Add α] (env : Env α) {m : Mem α} {p : Param α} {numLocal : Int} {msg : Msg α}

/-- What a copied gradient does to the server's gradient. -/
def mergeGrad (m : Mem α) (p : Param α) (reset : Bool) (values : List α) : Mem α :=
  m.write p.grad.ptr (if reset then values else List.zipWith (· + ·) (m.read p.grad.ptr p.size) values)

theorem parseUpdateMsg_copied {values : List α} {first last : Frame α} (cursor : msg.cursor = 0)
    (frames : msg.frames = [first, .data values, last]) (length : values.length = p.size) (reset : Bool) :
    parseUpdateMsg env (m, p, reset) (flag true, msg) = .ok (mergeGrad m p reset values, p, false) := by
  have floats : msg.nextFrame.1.floats p.size = .ok values := by
    simp [Msg.nextFrame, Msg.floats, Msg.frame, frames, cursor, ← length, bind, Except.bind]
  have next : msg.nextFrame.2 = true := by simp [Msg.nextFrame, frames, cursor]
  cases reset <;> simp [parseUpdateMsg, next, floats, flag, mergeGrad, bind, Except.bind]

theorem parseUpdateMsg_shared {ptr : Ptr} {first last : Frame α} (cursor : msg.cursor = 0)
    (frames : msg.frames = [first, .format [.ptr (some ptr)], last]) (reset : Bool) :
    parseUpdateMsg env (m, p, reset) (flag false, msg) =
      .ok (if ptr = p.grad.ptr then (m, p, reset)
        else (memcpy env m ptr p.grad.ptr 17, { p with grad := { p.grad with ptr } }, reset)) := by
  have frame : msg.nextFrame.1.frame = .ok (.format [.ptr (some ptr)]) := by
    simp [Msg.nextFrame, Msg.frame, frames, cursor]
  have next : msg.nextFrame.2 = true := by simp [Msg.nextFrame, frames, cursor]
  by_cases own : ptr = p.grad.ptr
  · simp [parseUpdateMsg, next, Msg.parseP, Msg.args, frame, flag, own, bind, Except.bind]
  · simp [parseUpdateMsg, next, Msg.parseP, Msg.args, frame, flag, own, bind, Except.bind, Frame.size, Arg.size]

/-- A pass of `ParseUpdateMsgs` on a well formed request. -/
theorem parseUpdateMsg_ok (h : Request p.size numLocal msg) (m : Mem α) (reset : Bool) :
    ∃ copy m' p' reset', msg.parseI = .ok (flag copy) ∧ SameButGrad p p' ∧
      parseUpdateMsg env (m, p, reset) (flag copy, msg) = .ok (m', p', reset') := by
  obtain ⟨copy, parsed, payload, kind, frames⟩ := h.parseI_first
  cases kind with
  | copied values length =>
    exact ⟨true, _, p, false, parsed, .refl p, parseUpdateMsg_copied env h.cursor frames length reset⟩
  | shared ptr =>
    have pass := parseUpdateMsg_shared env (m := m) (p := p) h.cursor frames reset
    split at pass
    · exact ⟨false, m, p, reset, parsed, .refl p, pass⟩
    · exact ⟨false, _, { p with grad := { p.grad with ptr } }, reset, parsed, rfl, pass⟩

end Parse

section Parse

variable [Add α] [Div α] [NatCast α]

/-- **`ParseUpdateMsgs` returns on well formed requests**, and changes only the gradient. -/
theorem parseUpdateMsgs_ok {p : Param α} (env : Env α) (m : Mem α) {msgs : List (Msg α)}
    (requests : ∀ msg ∈ msgs, ∃ numLocal, Request p.size numLocal msg) :
    ∃ m' p', SameButGrad p p' ∧ p.parseUpdateMsgs env m msgs = .ok (m', p') := by
  have flags : ∃ copies, msgs.mapM Msg.parseI = .ok copies ∧
      ∀ m (q : Param α) reset, q.size = p.size → ∃ m' q' reset', SameButGrad q q' ∧
        (copies.zip msgs).foldlM (parseUpdateMsg env) (m, q, reset) = .ok (m', q', reset') := by
    induction msgs with
    | nil => exact ⟨[], rfl, fun m q reset _ => ⟨m, q, reset, .refl q, rfl⟩⟩
    | cons msg msgs ih =>
      obtain ⟨copies, parsed, loop⟩ := ih fun msg mem => requests msg (List.mem_cons_of_mem _ mem)
      obtain ⟨numLocal, request⟩ := requests msg List.mem_cons_self
      obtain ⟨copy, first, -⟩ := request.parseI_first
      refine ⟨flag copy :: copies, ?_, fun m q reset size => ?_⟩
      · rw [List.mapM_cons]
        exact Run.do_ok.mpr ⟨_, first, Run.do_ok.mpr ⟨_, parsed, rfl⟩⟩
      · rw [← size] at request
        obtain ⟨copy', m', q', reset', first', same, pass⟩ := parseUpdateMsg_ok env request m reset
        rw [first] at first'
        obtain ⟨m'', q'', reset'', same', rest⟩ := loop m' q' reset' (same.size_eq.trans size)
        refine ⟨m'', q'', reset'', same.trans same', ?_⟩
        rw [List.zip_cons_cons, List.foldlM_cons, Except.ok.inj first']
        exact Run.do_ok.mpr ⟨_, pass, rest⟩
  obtain ⟨copies, parsed, loop⟩ := flags
  obtain ⟨m', q, reset', same, run⟩ := loop m p (copies.all (· ≠ 0)) rfl
  rw [parseUpdateMsgs]
  by_cases many : 1 < msgs.length
  · exact ⟨_, q, same, Run.do_ok.mpr ⟨_, parsed, Run.do_ok.mpr ⟨_, run, if_pos many⟩⟩⟩
  · exact ⟨_, q, same, Run.do_ok.mpr ⟨_, parsed, Run.do_ok.mpr ⟨_, run, if_neg many⟩⟩⟩

end Parse

/-- A request turned into its response: it goes back where it came from, laid out as before. -/
structure Answers (size : Nat) (request response : Msg α) : Prop where
  src : response.src = request.dst
  dst : response.dst = request.src
  type : response.type = .kRUpdate
  layout : ∀ numLocal, Request size numLocal request → Request size numLocal response.hop

theorem genUpdateResponseMsg_ok {p : Param α} {msg : Msg α} {numLocal : Int} (m : Mem α)
    (h : Request p.size numLocal msg) : ∃ r, p.genUpdateResponseMsg m msg = .ok r ∧ Answers p.size msg r := by
  obtain ⟨copy, payload, kind, frames⟩ := h.layout
  cases kind with
  | copied values length =>
    refine ⟨{ msg.swapAddr with
      type := .kRUpdate, cursor := 1
      frames := [.format [.int (flag true)], .data (m.read p.data.ptr p.size), .format [.int numLocal]] },
      ?_, rfl, rfl, rfl, fun l request => ⟨rfl, true, _, .copied _ (m.read_length p.data.ptr p.size), ?_⟩⟩
    · simp [genUpdateResponseMsg, Msg.firstFrame, Msg.swapAddr, Msg.parseI, Msg.args, Msg.frame, Msg.nextFrame,
        Msg.checkedFloats, Msg.floats, frames, flag, Frame.size, length, bind, Except.bind]
    · obtain ⟨_, _, _, frames'⟩ := request.layout
      rw [frames] at frames'
      simp_all [Msg.hop, Msg.firstFrame]
  | shared ptr =>
    refine ⟨{ msg.swapAddr with type := .kRUpdate, cursor := 0 }, ?_, rfl, rfl, rfl, fun l request => ?_⟩
    · simp [genUpdateResponseMsg, Msg.firstFrame, Msg.swapAddr, Msg.parseI, Msg.args, Msg.frame, frames, flag,
        bind, Except.bind]
    · exact ⟨rfl, request.layout⟩

theorem genUpdateResponseMsgs_ok {p : Param α} (m : Mem α) {msgs : List (Msg α)}
    (requests : ∀ msg ∈ msgs, ∃ numLocal, Request p.size numLocal msg) :
    ∃ rs, p.genUpdateResponseMsgs m msgs = .ok rs ∧ List.Forall₂ (Answers p.size) msgs rs := by
  induction msgs with
  | nil => exact ⟨[], rfl, .nil⟩
  | cons msg msgs ih =>
    obtain ⟨numLocal, request⟩ := requests msg List.mem_cons_self
    obtain ⟨r, first, answers⟩ := genUpdateResponseMsg_ok m request
    obtain ⟨rs, rest, all⟩ := ih fun msg mem => requests msg (List.mem_cons_of_mem _ mem)
    refine ⟨r :: rs, ?_, .cons answers all⟩
    rw [genUpdateResponseMsgs, List.mapM_cons]
    exact Run.do_ok.mpr ⟨r, first, Run.do_ok.mpr ⟨rs, rest, rfl⟩⟩

end Param

namespace Host

variable {h h' : Host α} {msg : Msg α} {out : List (Msg α)} {entry : ParamEntry α} {p : Param α} {numLocal : Int}

/-- The requests buffered for a slice. -/
def setBuffer (h : Host α) (slice : Int) (requests : List (Msg α)) : Host α :=
  { h with server := { h.server with
      bufferRequests := Function.update h.server.bufferRequests slice requests } }

variable [Add α] [Div α] [NatCast α] {env : Env α}

/-- **What `HandleUpdate` does** where it does not abort: it fires, or puts the request into the buffer. -/
theorem handleUpdate_cases (run : h.handleUpdate env msg = .ok (h', out)) :
    ∃ entry p, h.paramAt msg.sliceId = .ok (entry, p) ∧
      ((∃ m' q p' rs, p.parseUpdateMsgs env h.mem (h.server.bufferRequests msg.sliceId ++ [msg.firstFrame]) = .ok (m', q) ∧
        p' = (updateParam env msg.trgtVersion m' q).2.setLocalVersion
          ((updateParam env msg.trgtVersion m' q).2.localVersion + 1) ∧
        p'.genUpdateResponseMsgs (updateParam env msg.trgtVersion m' q).1
          (h.server.bufferRequests msg.sliceId ++ [msg.firstFrame]) = .ok rs ∧
        out = rs.map (·.setTrgt msg.paramId msg.sliceId p'.localVersion) ∧
        h' = ({ h with mem := (updateParam env msg.trgtVersion m' q).1 }.setBuffer msg.sliceId []).setEntry msg.sliceId
          { entry.setFront p' with numUpdate := 0 }) ∨
      ∃ numUpdate, out = [] ∧
        h' = (h.setBuffer msg.sliceId (h.server.bufferRequests msg.sliceId ++ [msg.firstFrame])).setEntry msg.sliceId
          { entry with numUpdate }) := by
  obtain ⟨⟨entry, p⟩, param, run⟩ := Run.do_ok.mp run
  obtain ⟨numUpdate, -, run⟩ := Run.do_ok.mp run
  refine ⟨entry, p, param, ?_⟩
  simp only at run
  split at run
  · split at run
    · obtain ⟨⟨m', q⟩, parsed, run⟩ := Run.do_ok.mp run
      obtain ⟨rs, responses, run⟩ := Run.do_ok.mp run
      cases run
      exact .inl ⟨m', q, _, rs, parsed, rfl, responses, rfl, rfl⟩
    · cases run
  · cases run
    exact .inr ⟨_, rfl, rfl⟩

/-- Too few shares: the request waits. -/
theorem handleUpdate_buffer (found : h.shard msg.sliceId = some entry) (shares : entry.shares = [p])
    (request : Request p.size numLocal msg) (few : entry.numUpdate + numLocal < entry.numTotal) :
    h.handleUpdate env msg =
      .ok ((h.setBuffer msg.sliceId (h.server.bufferRequests msg.sliceId ++ [msg])).setEntry msg.sliceId
        { entry with numUpdate := entry.numUpdate + numLocal }, []) := by
  rw [handleUpdate]
  refine Run.do_ok.mpr ⟨_, paramAt_ok found shares, Run.do_ok.mpr ⟨_, request.parseI_last, ?_⟩⟩
  simp only [not_le.mpr few, if_false, request.firstFrame, setBuffer]

/-- Too many shares: the `CHECK_EQ` fails. -/
theorem handleUpdate_abort (found : h.shard msg.sliceId = some entry) (shares : entry.shares = [p])
    (request : Request p.size numLocal msg) (many : entry.numTotal < entry.numUpdate + numLocal) :
    h.handleUpdate env msg = .error .numUpdate := by
  rw [handleUpdate, paramAt_ok found shares]
  have last := request.parseI_last
  simp only [bind, Except.bind, last, many.le, many.ne', if_true, if_false]

/-- What firing leaves of a parameter: one version further, with another gradient and history. -/
structure Fired (p p' : Param α) : Prop where
  localVersion : p'.localVersion = p.localVersion + 1
  size : p'.size = p.size
  version : p'.version = p.version
  data : p'.data.ptr = p.data.ptr
  proto : p'.proto = p.proto

/-- **All shares are in: the requests are aggregated, the parameter updated and every request answered
with the new version.** -/
theorem handleUpdate_fire (env : Env α) (found : h.shard msg.sliceId = some entry) (shares : entry.shares = [p])
    (request : Request p.size numLocal msg) (all : entry.numUpdate + numLocal = entry.numTotal)
    (buffered : ∀ r ∈ h.server.bufferRequests msg.sliceId, ∃ numLocal, Request p.size numLocal r) :
    ∃ m' q mem p' rs, Param.SameButGrad p q ∧
      p.parseUpdateMsgs env h.mem (h.server.bufferRequests msg.sliceId ++ [msg]) = .ok (m', q) ∧
      mem = (updateParam env msg.trgtVersion m' q).1 ∧ Fired p p' ∧
      List.Forall₂ (Param.Answers p.size) (h.server.bufferRequests msg.sliceId ++ [msg]) rs ∧
      h.handleUpdate env msg = .ok (({ h with mem }.setBuffer msg.sliceId []).setEntry msg.sliceId
        { entry with numUpdate := 0, shares := [p'] },
        rs.map (·.setTrgt msg.paramId msg.sliceId (p.localVersion + 1))) := by
  have requests : ∀ r ∈ h.server.bufferRequests msg.sliceId ++ [msg], ∃ numLocal, Request p.size numLocal r := by
    intro r mem
    rcases List.mem_append.mp mem with mem | mem
    · exact buffered r mem
    · rw [List.mem_singleton.mp mem]
      exact ⟨numLocal, request⟩
  obtain ⟨m', p', same, parsed⟩ := Param.parseUpdateMsgs_ok env h.mem requests
  generalize hu : updateParam env msg.trgtVersion m' p' = updated
  obtain ⟨mem, p''⟩ := updated
  have kept : p'' = { p' with history := p''.history } := by
    rw [updateParam] at hu
    cases hu
    rfl
  have size : (p''.setLocalVersion (p''.localVersion + 1)).size = p.size := by
    rw [kept, ← same.size_eq]
    rfl
  obtain ⟨rs, responses, answers⟩ :=
    Param.genUpdateResponseMsgs_ok (p := p''.setLocalVersion (p''.localVersion + 1)) mem (size ▸ requests)
  have version : p''.localVersion = p.localVersion := by
    rw [kept]
    unfold Param.SameButGrad at same
    rw [same]
  refine ⟨m', p', mem, p''.setLocalVersion (p''.localVersion + 1), rs, same, parsed, by rw [hu], ?_,
    size ▸ answers, ?_⟩
  · unfold Param.SameButGrad at same
    refine ⟨by rw [Param.setLocalVersion, version], size, ?_, ?_, ?_⟩
    all_goals rw [kept, same]; rfl
  · rw [handleUpdate]
    refine Run.do_ok.mpr ⟨_, paramAt_ok found shares, Run.do_ok.mpr ⟨_, request.parseI_last, ?_⟩⟩
    simp only [all, le_refl, if_true, request.firstFrame]
    refine Run.do_ok.mpr ⟨_, parsed, ?_⟩
    simp only [hu]
    refine Run.do_ok.mpr ⟨rs, responses, ?_⟩
    simp [setBuffer, setEntry, ParamEntry.setFront, shares, Param.setLocalVersion, version]

end Host
end Singa
