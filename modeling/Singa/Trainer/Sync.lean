import Mathlib.Algebra.BigOperators.Group.Finset.Basic
import Singa.Trainer.Updates

/-!
# Synchronisation between server groups

Every server group has a replica of a slice and one of them masters it. A
reminder makes the master send its values to the others; these answer with what
they have changed since the last time, or keep that for the next time when the
stub reports no bandwidth. Nothing is lost or counted twice by this: the master's
values, the changes the others have not sent yet and the changes on their way to
the master always add up to all updates made so far.
-/

namespace Singa
set_option autoImplicit false

open Memory Vec

variable {α : Type}

/-! ## What an update may change -/

namespace Param

theorem parseUpdateMsg_same [Add α] {env : Env α} {s s' : Mem α × Param α × Bool} {msg : Int × Msg α}
    (h : parseUpdateMsg env s msg = .ok s') : SameButGrad s.2.1 s'.2.1 := by
  unfold parseUpdateMsg at h
  simp only at h
  split at h
  · split at h
    · obtain ⟨grad, -, h⟩ := Run.do_ok.mp h
      split at h <;> (cases h; exact .refl _)
    · obtain ⟨ptr, -, h⟩ := Run.do_ok.mp h
      split at h
      · cases h
        exact .refl _
      · cases ptr with
        | none => cases h
        | some ptr =>
          obtain ⟨frame, -, h⟩ := Run.do_ok.mp h
          cases h
          rfl
  · cases h

theorem parseUpdateMsgs_same [Add α] [Div α] [NatCast α] {env : Env α} {m m' : Mem α} {p p' : Param α} {msgs : List (Msg α)}
    (h : p.parseUpdateMsgs env m msgs = .ok (m', p')) : SameButGrad p p' := by
  obtain ⟨copies, -, h⟩ := Run.do_ok.mp h
  obtain ⟨⟨m'', q, reset⟩, loop, h⟩ := Run.do_ok.mp h
  have same : SameButGrad p q :=
    Run.foldlM_inv (fun _ s => SameButGrad p s.2.1) (fun _ _ _ _ before pass => before.trans (parseUpdateMsg_same pass))
      (.refl p) loop
  simp only at h
  split at h <;> (cases h; exact same)

theorem genUpdateResponseMsg_type {m : Mem α} {p : Param α} {msg r : Msg α}
    (h : p.genUpdateResponseMsg m msg = .ok r) : r.type = .kRUpdate := by
  obtain ⟨copy, -, h⟩ := Run.do_ok.mp h
  split at h
  · obtain ⟨values, -, h⟩ := Run.do_ok.mp h
    cases h
    rfl
  · cases h
    rfl

theorem genUpdateResponseMsgs_type {m : Mem α} {p : Param α} {msgs rs : List (Msg α)}
    (h : p.genUpdateResponseMsgs m msgs = .ok rs) : ∀ r ∈ rs, r.type = .kRUpdate := by
  induction msgs generalizing rs with
  | nil =>
    cases h
    simp
  | cons msg msgs ih =>
    rw [genUpdateResponseMsgs, List.mapM_cons] at h
    obtain ⟨r, first, h⟩ := Run.do_ok.mp h
    obtain ⟨rest, others, h⟩ := Run.do_ok.mp h
    cases h
    intro x mem
    rcases List.mem_cons.mp mem with rfl | mem
    · exact genUpdateResponseMsg_type first
    · exact ih others x mem

end Param

namespace Host

variable {h h' : Host α} {msg : Msg α} {entry : ParamEntry α} {p : Param α} {out : List (Msg α)}

/-- Two parameters with the same identity, size and place of the values. -/
structure SamePlace (p p' : Param α) : Prop where
  id : p'.id = p.id
  size : p'.size = p.size
  data : p'.data.ptr = p.data.ptr

/-- An update replaces the parameter by one in the same place, touches nothing else of the server but
its buffer, and answers workers only. -/
theorem handleUpdate_kept [Add α] [Div α] [NatCast α] {env : Env α} (found : h.shard msg.sliceId = some entry)
    (shares : entry.shares = [p]) (run : h.handleUpdate env msg = .ok (h', out)) :
    (∃ entry' p', h'.shard msg.sliceId = some entry' ∧ entry'.shares = [p'] ∧ SamePlace p p') ∧
      (∃ buffer, h'.server = { h.server with bufferRequests := buffer }) ∧ ∀ r ∈ out, r.type = .kRUpdate := by
  obtain ⟨here, q, param, fired | ⟨numUpdate, rfl, rfl⟩⟩ := handleUpdate_cases run
  all_goals
    rw [paramAt_ok found shares] at param
    cases param
  · obtain ⟨m', q, p', rs, parsed, rfl, responses, rfl, rfl⟩ := fired
    have same := Param.parseUpdateMsgs_same parsed
    have types := Param.genUpdateResponseMsgs_type responses
    have place : SamePlace p ((updateParam env msg.trgtVersion m' q).2.setLocalVersion
        ((updateParam env msg.trgtVersion m' q).2.localVersion + 1)) := by
      unfold Param.SameButGrad at same
      rw [same]
      exact ⟨rfl, rfl, rfl⟩
    refine ⟨⟨_, _, Function.update_self .., by simp [ParamEntry.setFront, shares], place⟩, ⟨_, rfl⟩, ?_⟩
    intro r mem
    obtain ⟨x, sent, rfl⟩ := List.mem_map.mp mem
    exact types x sent
  · exact ⟨⟨_, p, Function.update_self .., shares, rfl, rfl, rfl⟩, ⟨_, rfl⟩, by simp⟩

/-! ## One replica -/

/-- The replica of a slice that the group `grp` keeps, mastered by the group `master`. -/
structure Replica (slice master grp : Nat) (h : Host α) (entry : ParamEntry α) (p : Param α) : Prop where
  found : h.shard slice = some entry
  shares : entry.shares = [p]
  id : p.id = slice
  grpId : h.server.grpId = grp
  table : h.server.slice2group[slice]? = some (master : Int)
  mastered : ∀ s ∈ h.server.masterParams, s = slice
  last : grp ≠ master → ∃ prev, h.server.lastData slice = some prev ∧ prev.length = p.size

theorem masters_eq {slice master grp : Nat} (grpId : h.server.grpId = grp)
    (table : h.server.slice2group[slice]? = some (master : Int)) :
    h.masters slice = .ok (decide (grp = master)) := by
  have nonneg : ¬ (slice : Int) < 0 := by omega
  simp only [Host.masters, nonneg, if_false, Int.toNat_natCast, table, grpId]
  simp [eq_comm]

/-- A sync message for the slice as it is in flight. -/
structure SyncMsg (slice : Nat) (msg : Msg α) (values : List α) : Prop where
  type : msg.type = .kSyncRequest
  slice : msg.sliceId = slice
  frames : msg.frames = [.data values]

/-- The message as the stub of the receiver hands it on, with the bandwidth that is left. -/
def withBandwidth (msg : Msg α) (bandwidth : Int) : Msg α := msg.hop.addFrame (.format [.int bandwidth])

/-- What a replica has changed since `prev`. -/
def changes [Sub α] (h : Host α) (p : Param α) (prev : List α) : List α :=
  List.zipWith (· - ·) (h.mem.read p.data.ptr p.size) prev

/-- The replica with new values, and those to compare them with the next time. -/
def adopt (h : Host α) (slice : Int) (p : Param α) (cur prev : List α) : Host α :=
  { h with
    mem := h.mem.write p.data.ptr cur
    server := { h.server with lastData := Function.update h.server.lastData slice (some prev) } }

/-- The master's replica with changes of another one. -/
def merge [Add α] (h : Host α) (slice : Int) (entry : ParamEntry α) (p : Param α) (values : List α) : Host α :=
  let cur := h.mem.read p.data.ptr p.size
  { h with mem := h.mem.write p.data.ptr (List.zipWith (· + ·) cur values) }.setEntry slice
    (entry.setFront (p.setLocalVersion (p.localVersion + 1)))

section Handle

variable {slice master grp : Nat} {values : List α}

theorem SyncMsg.checkedFloats (sync : SyncMsg slice msg values) (bandwidth : Int) (size : Nat) :
    (withBandwidth msg bandwidth).checkedFloats size =
      if values.length = size then .ok values else .error .frameSize := by
  by_cases same : values.length = size
  · simp [withBandwidth, Msg.hop, Msg.firstFrame, Msg.addFrame, Msg.checkedFloats, Msg.frame, Msg.floats,
      sync.frames, Frame.size, same, bind, Except.bind, List.take_of_length_le]
  · simp [withBandwidth, Msg.hop, Msg.firstFrame, Msg.addFrame, Msg.checkedFloats, Msg.frame, sync.frames,
      Frame.size, same, bind, Except.bind]

theorem SyncMsg.parseI (sync : SyncMsg slice msg values) (bandwidth : Int) :
    (withBandwidth msg bandwidth).nextFrame.1.parseI = .ok bandwidth := by
  simp [withBandwidth, Msg.hop, Msg.firstFrame, Msg.addFrame, Msg.nextFrame, Msg.parseI, Msg.args, Msg.frame,
    sync.frames, bind, Except.bind]

variable [Add α] [Sub α] {bandwidth : Int}

/-- **What `HandleSyncRequest` does** where it does not abort: the master adds the changes, another replica takes over
values. -/
theorem handleSyncRequest_cases {response : Option (Msg α)} (run : h.handleSyncRequest msg = .ok (h', response)) :
    ∃ entry p tmp, h.paramAt msg.sliceId = .ok (entry, p) ∧ msg.checkedFloats p.size = .ok tmp ∧
      ((h.masters msg.sliceId = .ok true ∧ h' = h.merge msg.sliceId entry p tmp ∧ response = none) ∨
        (h.masters msg.sliceId = .ok false ∧ ∃ cur prev, h' = h.adopt p.id p cur prev)) := by
  obtain ⟨⟨entry, p⟩, param, run⟩ := Run.do_ok.mp run
  obtain ⟨tmp, floats, run⟩ := Run.do_ok.mp run
  obtain ⟨mine, masters, run⟩ := Run.do_ok.mp run
  refine ⟨entry, p, tmp, param, floats, ?_⟩
  cases mine with
  | true =>
    cases run
    exact .inl ⟨masters, rfl, rfl⟩
  | false =>
    simp only [Bool.false_eq_true, if_false] at run
    split at run
    · cases run
    · obtain ⟨bandwidth, -, run⟩ := Run.do_ok.mp run
      split at run
      all_goals
        cases run
        exact .inr ⟨masters, _, _, rfl⟩

/-- At the master the changes are added to the values. -/
theorem handleSyncRequest_master (r : Replica slice master master h entry p) (sync : SyncMsg slice msg values)
    (length : values.length = p.size) :
    h.handleSyncRequest (withBandwidth msg bandwidth) =
      .ok (h.merge slice entry p values, none) := by
  have here : (withBandwidth msg bandwidth).sliceId = slice := sync.slice
  have floats := sync.checkedFloats bandwidth p.size
  rw [if_pos length] at floats
  have masters := masters_eq r.grpId r.table
  rw [decide_eq_true rfl] at masters
  rw [handleSyncRequest, here]
  refine Run.do_ok.mpr ⟨_, paramAt_ok r.found r.shares, Run.do_ok.mpr ⟨_, floats, Run.do_ok.mpr ⟨_, masters, ?_⟩⟩⟩
  rfl

/-- A replica takes over the master's values; its own changes are sent back if there is bandwidth for
it, and kept otherwise. -/
theorem handleSyncRequest_other (r : Replica slice master grp h entry p) (other : grp ≠ master)
    (sync : SyncMsg slice msg values) (length : values.length = p.size) {prev : List α}
    (last : h.server.lastData slice = some prev) :
    h.handleSyncRequest (withBandwidth msg bandwidth) =
      .ok (if 0 < bandwidth then
        (h.adopt slice p (List.zipWith (· + ·) (h.changes p prev) values)
          (List.zipWith (· + ·) (h.changes p prev) values),
          some { src := msg.dst, dst := msg.src, type := .kSyncRequest, sliceId := slice, trgtVersion := p.version
                 frames := [.data (h.changes p prev)] })
      else (h.adopt slice p (List.zipWith (· + ·) values (h.changes p prev)) values, none)) := by
  have here : (withBandwidth msg bandwidth).sliceId = slice := sync.slice
  have floats := sync.checkedFloats bandwidth p.size
  rw [if_pos length] at floats
  have masters := masters_eq r.grpId r.table
  rw [decide_eq_false other] at masters
  rw [handleSyncRequest, here]
  refine Run.do_ok.mpr ⟨_, paramAt_ok r.found r.shares, Run.do_ok.mpr ⟨_, floats, Run.do_ok.mpr ⟨_, masters, ?_⟩⟩⟩
  simp only [r.id, last, Bool.false_eq_true, if_false]
  refine Run.do_ok.mpr ⟨_, sync.parseI bandwidth, ?_⟩
  split
  · rfl
  · rfl

/-- A message of another length fails the `CHECK_EQ` on its frame. -/
theorem handleSyncRequest_length {result : Host α × Option (Msg α)} (r : Replica slice master grp h entry p)
    (sync : SyncMsg slice msg values) (run : h.handleSyncRequest (withBandwidth msg bandwidth) = .ok result) :
    values.length = p.size := by
  have here : (withBandwidth msg bandwidth).sliceId = slice := sync.slice
  obtain ⟨h', response⟩ := result
  obtain ⟨entry', q, tmp, param, floats, -⟩ := handleSyncRequest_cases run
  rw [here, paramAt_ok r.found r.shares] at param
  cases param
  rw [sync.checkedFloats] at floats
  by_contra different
  rw [if_neg different] at floats
  cases floats

end Handle

/-- A message from the master to a replica. -/
structure FromMaster (groups slice master : Nat) (msg : Msg α) : Prop where
  sync : ∃ values, SyncMsg slice msg values
  src : msg.src.grp = master
  dst : ∃ grp < groups, grp ≠ master ∧ msg.dst.grp = grp

theorem genSyncMsgs_ok {slice master : Nat} (cluster : Cluster) (r : Replica slice master master h entry p) :
    ∃ h' out entry' p', genSyncMsgs cluster h slice = .ok (h', out) ∧ Replica slice master master h' entry' p' ∧
      SamePlace p p' ∧ h'.mem = h.mem ∧ ∀ msg ∈ out, FromMaster cluster.proto.nserverGroups slice master msg := by
  have sent : ∀ msg ∈ ((List.range cluster.proto.nserverGroups).filter fun (i : Nat) =>
      decide ((i : Int) ≠ h.server.grpId)).map fun (i : Nat) =>
        { p.genSyncMsg h.mem with dst := ⟨i, 0, .kServer⟩, src := ⟨h.server.grpId, h.server.id, .kServer⟩ },
      FromMaster cluster.proto.nserverGroups slice master msg := by
    intro msg mem
    obtain ⟨i, chosen, rfl⟩ := List.mem_map.mp mem
    obtain ⟨lt, other⟩ := List.mem_filter.mp chosen
    rw [r.grpId] at other
    exact ⟨⟨_, rfl, r.id, rfl⟩, r.grpId, i, List.mem_range.mp lt, by simpa using other, rfl⟩
  by_cases none : ((List.range cluster.proto.nserverGroups).filter fun (i : Nat) =>
      decide ((i : Int) ≠ h.server.grpId)) = []
  · refine ⟨h, _, entry, p, ?_, r, ⟨rfl, rfl, rfl⟩, rfl, sent⟩
    refine Run.do_ok.mpr ⟨_, paramAt_ok r.found r.shares, ?_⟩
    simp only [none, if_true]
  · refine ⟨h.setEntry slice (entry.setVersion p.localVersion), _, entry.setVersion p.localVersion,
      p.setVersion p.localVersion, ?_, ?_, ⟨rfl, rfl, rfl⟩, rfl, sent⟩
    · refine Run.do_ok.mpr ⟨_, paramAt_ok r.found r.shares, ?_⟩
      simp only [none, if_false]
    · exact ⟨Function.update_self .., by simp [ParamEntry.setVersion, r.shares], r.id, r.grpId, r.table, r.mastered,
        r.last⟩

/-- A reminder only catches up with the version of the slice and sends messages to the replicas. -/
theorem handleSyncReminder_ok {slice master : Nat} (cluster : Cluster) (r : Replica slice master master h entry p) :
    ∃ h' out entry' p', h.handleSyncReminder cluster = .ok (h', out) ∧ Replica slice master master h' entry' p' ∧
      SamePlace p p' ∧ h'.mem = h.mem ∧ ∀ msg ∈ out, FromMaster cluster.proto.nserverGroups slice master msg := by
  rw [handleSyncReminder]
  split
  · exact ⟨h, [], entry, p, rfl, r, ⟨rfl, rfl, rfl⟩, rfl, by simp⟩
  · rename_i s here
    obtain rfl := r.mastered s (List.mem_of_getElem? here)
    have param := paramAt_ok r.found r.shares
    by_cases due : (cluster.proto.nserverGroups : Int) ≤ |p.localVersion - p.version|
    · obtain ⟨h', out, entry', p', sent, r', place, mem, msgs⟩ := genSyncMsgs_ok cluster r
      refine ⟨{ h' with server := { h'.server with
        syncEntry := (h'.server.syncEntry + 1) % h'.server.masterParams.length } }, out, entry', p', ?_, ?_, place,
        mem, msgs⟩
      · refine Run.do_ok.mpr ⟨_, param, ?_⟩
        simp only [due, if_true]
        exact Run.do_ok.mpr ⟨_, sent, rfl⟩
      · exact ⟨r'.found, r'.shares, r'.id, r'.grpId, r'.table, r'.mastered, r'.last⟩
    · refine ⟨h, [], entry, p, ?_, r, ⟨rfl, rfl, rfl⟩, rfl, by simp⟩
      exact Run.do_ok.mpr ⟨_, param, if_neg due⟩

/-- A put makes a replica; one that is mastered elsewhere has nothing to send yet. -/
theorem handlePut_replica [Zero α] [One α] {cluster : Cluster} {slice master grp : Nat} (here : msg.sliceId = slice)
    (grpId : h.server.grpId = grp) (table : h.server.slice2group[slice]? = some (master : Int))
    (fresh : h.server.masterParams = []) (groups : grp ≠ master → 1 < cluster.proto.nserverGroups)
    (run : h.handlePut cluster msg = .ok h') :
    ∃ entry p, Replica slice master grp h' entry p ∧ h'.server.masterParams = [] ∧
      (grp ≠ master → h'.server.lastData slice = some (h'.mem.read p.data.ptr p.size)) := by
  rw [handlePut, here] at run
  simp only at run
  split at run
  · cases run
  · obtain ⟨⟨mem, p, moved⟩, -, run⟩ := Run.do_ok.mp run
    obtain ⟨shares, -, run⟩ := Run.do_ok.mp run
    simp only [allocLastData] at run
    split at run
    · obtain ⟨mine, masters, run⟩ := Run.do_ok.mp run
      have same : mine = decide (grp = master) := Except.ok.inj (masters.symm.trans (masters_eq grpId table))
      rw [same] at run
      by_cases own : grp = master
      · rw [if_pos (decide_eq_true own)] at run
        cases run
        exact ⟨_, _, ⟨Function.update_self .., rfl, rfl, grpId, table, by simp [setEntry, fresh],
          fun other => absurd own other⟩, fresh, fun other => absurd own other⟩
      · rw [if_neg (by simpa using own)] at run
        cases run
        exact ⟨_, _, ⟨Function.update_self .., rfl, rfl, grpId, table, by simp [setEntry, fresh],
          fun _ => ⟨_, Function.update_self .., Mem.read_length ..⟩⟩, fresh, fun _ => Function.update_self ..⟩
    · rename_i single
      have own : grp = master := by
        by_contra other
        exact single (groups other)
      cases run
      exact ⟨_, _, ⟨Function.update_self .., rfl, rfl, grpId, table, by simp [setEntry, fresh],
        fun other => absurd own other⟩, fresh, fun other => absurd own other⟩

theorem receive_put [Add α] [Sub α] [Div α] [NatCast α] [Zero α] [One α] {cluster : Cluster} {env : Env α}
    {slice master grp : Nat} (type : msg.type = .kPut) (here : msg.sliceId = slice)
    (grpId : h.server.grpId = grp) (table : h.server.slice2group[slice]? = some (master : Int))
    (fresh : h.server.masterParams = []) (groups : grp ≠ master → 1 < cluster.proto.nserverGroups)
    (run : h.receive cluster env msg = .ok (h', out)) :
    ∃ entry p, Replica slice master grp h' entry p ∧
      (grp ≠ master → h'.server.lastData slice = some (h'.mem.read p.data.ptr p.size)) := by
  simp only [receive, type, here] at run
  obtain ⟨h'', put, run⟩ := Run.do_ok.mp run
  obtain ⟨entry, p, r, fresh', last⟩ := handlePut_replica here grpId table fresh groups put
  obtain ⟨mine, -, run⟩ := Run.do_ok.mp run
  cases mine with
  | true =>
    cases run
    refine ⟨entry, p, ⟨r.found, r.shares, r.id, r.grpId, r.table, ?_, r.last⟩, last⟩
    simp [fresh']
  | false =>
    cases run
    exact ⟨entry, p, r, last⟩

end Host

/-! ## All groups together -/

/-- The floats that a sync message carries. -/
def Msg.payload [Zero α] (msg : Msg α) : Nat → α :=
  match msg.frames with
  | .data values :: _ => coord values
  | _ => 0

/-- The current values of a slice. -/
def Host.values [Zero α] (h : Host α) (slice : Int) : Nat → α :=
  match h.paramAt slice with
  | .ok (_, p) => coord (h.mem.read p.data.ptr p.size)
  | .error _ => 0

/-- `last_data_` of a slice. -/
def Host.last [Zero α] (h : Host α) (slice : Int) : Nat → α :=
  match h.server.lastData slice with
  | some values => coord values
  | none => 0

/-- The servers of all groups that keep the slice, the sync messages in flight between them, and the
changes of the values by all updates so far. -/
structure SyncSystem (α : Type) where
  hosts : Nat → Host α
  net : List (Msg α)
  applied : Nat → α

/-- An update request, a reminder at the master, or any message in flight arrives. -/
inductive SyncAction (α : Type) where
  | update (grp : Nat) (msg : Msg α)
  | remind (msg : Msg α)
  | deliver (i : Nat) (bandwidth : Int)

namespace SyncSystem

/-- Every group has its replica, and every message in flight goes from the master to another group or
back to the master. -/
structure Inv (cluster : Cluster) (slice master : Nat) (s : SyncSystem α) : Prop where
  lt : master < cluster.proto.nserverGroups
  replicas : ∀ grp < cluster.proto.nserverGroups, ∃ entry p, Host.Replica slice master grp (s.hosts grp) entry p
  messages : ∀ msg ∈ s.net, ((∃ values, Host.SyncMsg slice msg values) ∧ msg.dst.grp = master) ∨
    Host.FromMaster cluster.proto.nserverGroups slice master msg

theorem Inv.update {cluster : Cluster} {slice master : Nat} {s : SyncSystem α} (inv : s.Inv cluster slice master) {grp : Nat} {h : Host α} {entry : ParamEntry α} {p : Param α}
    (replica : Host.Replica slice master grp h entry p) {net : List (Msg α)}
    (messages : ∀ msg ∈ net, msg ∈ s.net ∨ ((∃ values, Host.SyncMsg slice msg values) ∧ msg.dst.grp = master) ∨
      Host.FromMaster cluster.proto.nserverGroups slice master msg) (applied : Nat → α) :
    Inv cluster slice master { hosts := Function.update s.hosts grp h, net, applied } where
  lt := inv.lt
  replicas := by
    intro g lt
    by_cases here : g = grp
    · subst here
      exact ⟨entry, p, by simpa using replica⟩
    · simpa [here] using inv.replicas g lt
  messages := fun msg mem => (messages msg mem).elim (inv.messages msg) id

variable [Field α] (cluster : Cluster) (env : Env α) (slice master : Nat)

/-- A message received by the server of a group; what it sends to other servers is then in flight. -/
def receive (s : SyncSystem α) (grp : Nat) (msg : Msg α) : Run (SyncSystem α) := do
  let (h, out) ← (s.hosts grp).receive cluster env msg
  .ok { s with
    hosts := Function.update s.hosts grp h
    net := s.net ++ out.filter (·.type = .kSyncRequest) }

def step (s : SyncSystem α) : SyncAction α → Run (SyncSystem α)
  | .update grp msg =>
    if grp < cluster.proto.nserverGroups ∧ msg.type = .kUpdate ∧ msg.sliceId = slice then do
      let s' ← s.receive cluster env grp msg
      .ok { s' with applied := s.applied + ((s'.hosts grp).values slice - (s.hosts grp).values slice) }
    else .ok s
  | .remind msg => if msg.type = .kSyncReminder then s.receive cluster env master msg else .ok s
  | .deliver i bandwidth =>
    match s.net[i]? with
    | none => .ok s
    | some msg =>
      { s with net := s.net.eraseIdx i }.receive cluster env msg.dst.grp.toNat (Host.withBandwidth msg bandwidth)

/-- Changes on their way to the master. -/
def flight (net : List (Msg α)) : Nat → α :=
  ((net.filter fun msg => msg.dst.grp = (master : Int)).map Msg.payload).sum

/-- The master's values, the changes that the other groups have not sent, and those in flight. -/
def total (s : SyncSystem α) : Nat → α :=
  (s.hosts master).values slice +
    ∑ grp ∈ (Finset.range cluster.proto.nserverGroups).erase master,
      ((s.hosts grp).values slice - (s.hosts grp).last slice) +
    flight master s.net

/-- All groups have just got the slice put. -/
structure Initial (s : SyncSystem α) : Prop where
  lt : master < cluster.proto.nserverGroups
  put : ∀ grp < cluster.proto.nserverGroups, ∃ (h : Host α) (msg : Msg α) (out : List (Msg α)), msg.type = .kPut ∧ msg.sliceId = slice ∧
    h.server.grpId = grp ∧ h.server.slice2group[slice]? = some (master : Int) ∧ h.server.masterParams = [] ∧
    h.receive cluster env msg = .ok (s.hosts grp, out)
  net : s.net = []
  applied : s.applied = 0

/-- What the total has of one group. -/
def stake (h : Host α) (grp : Nat) : Nat → α :=
  if grp = master then h.values slice else h.values slice - h.last slice

variable {cluster env slice master} {s s' : SyncSystem α}

theorem total_eq_sum (lt : master < cluster.proto.nserverGroups) :
    s.total cluster slice master =
      ∑ grp ∈ Finset.range cluster.proto.nserverGroups, stake slice master (s.hosts grp) grp + flight master s.net := by
  have others : ∑ grp ∈ (Finset.range cluster.proto.nserverGroups).erase master,
        ((s.hosts grp).values slice - (s.hosts grp).last slice) =
      ∑ grp ∈ (Finset.range cluster.proto.nserverGroups).erase master, stake slice master (s.hosts grp) grp := by
    apply Finset.sum_congr rfl
    intro grp mem
    rw [stake, if_neg (Finset.ne_of_mem_erase mem)]
  rw [total, others, ← Finset.add_sum_erase _ _ (Finset.mem_range.mpr lt), stake, if_pos rfl]

/-- A change of one group and of the messages changes the total by just these. -/
theorem total_update {h : Host α} {grp : Nat} {net : List (Msg α)} (lt : master < cluster.proto.nserverGroups)
    (here : grp < cluster.proto.nserverGroups) (applied : Nat → α) :
    ({ hosts := Function.update s.hosts grp h, net, applied } : SyncSystem α).total cluster slice master =
      s.total cluster slice master + (stake slice master h grp - stake slice master (s.hosts grp) grp) +
        (flight master net - flight master s.net) := by
  have others : ∑ g ∈ (Finset.range cluster.proto.nserverGroups).erase grp,
        stake slice master (Function.update s.hosts grp h g) g =
      ∑ g ∈ (Finset.range cluster.proto.nserverGroups).erase grp, stake slice master (s.hosts g) g := by
    apply Finset.sum_congr rfl
    intro g mem
    rw [Function.update_of_ne (Finset.ne_of_mem_erase mem)]
  rw [total_eq_sum lt, total_eq_sum lt, ← Finset.add_sum_erase _ _ (Finset.mem_range.mpr here),
    ← Finset.add_sum_erase (Finset.range _) (fun g => stake slice master (s.hosts g) g) (Finset.mem_range.mpr here)]
  simp only [others, Function.update_self]
  abel

theorem flight_append (a b : List (Msg α)) : flight master (a ++ b) = flight master a + flight master b := by
  simp [flight]

theorem flight_cons (msg : Msg α) (net : List (Msg α)) :
    flight master (msg :: net) = (if msg.dst.grp = master then msg.payload else 0) + flight master net := by
  by_cases home : msg.dst.grp = master <;> simp [flight, home]

theorem flight_eraseIdx {i : Nat} {msg : Msg α} {net : List (Msg α)} (here : net[i]? = some msg) :
    flight master net = (if msg.dst.grp = master then msg.payload else 0) + flight master (net.eraseIdx i) := by
  obtain ⟨lt, rfl⟩ := List.getElem?_eq_some_iff.mp here
  have perm := ((List.getElem_cons_eraseIdx_perm lt).filter fun msg => msg.dst.grp = (master : Int)).map Msg.payload
  rw [← flight_cons, flight, flight, perm.sum_eq]

end SyncSystem

namespace Host.Replica

variable [Field α] {slice master grp : Nat} {h : Host α} {entry : ParamEntry α} {p : Param α}

theorem values_eq (r : Replica slice master grp h entry p) : h.values slice = coord (h.mem.read p.data.ptr p.size) := by
  rw [Host.values, paramAt_ok r.found r.shares]

theorem stake_eq_values (r : Replica slice master master h entry p) :
    SyncSystem.stake slice master h master = coord (h.mem.read p.data.ptr p.size) := by
  rw [SyncSystem.stake, if_pos rfl, r.values_eq]

theorem stake_eq_changes (r : Replica slice master grp h entry p) (other : grp ≠ master) {prev : List α}
    (last : h.server.lastData slice = some prev) (length : prev.length = p.size) :
    SyncSystem.stake slice master h grp = coord (h.changes p prev) := by
  rw [SyncSystem.stake, if_neg other, r.values_eq, Host.last, last, changes, coord_zipWith_sub (by simp [length])]

end Host.Replica

namespace SyncSystem

variable [Field α] {cluster : Cluster} {env : Env α} {slice master : Nat} {s s' : SyncSystem α}

theorem receive_update (inv : s.Inv cluster slice master) {grp : Nat} {msg : Msg α}
    (lt : grp < cluster.proto.nserverGroups) (type : msg.type = .kUpdate) (here : msg.sliceId = slice)
    (run : s.receive cluster env grp msg = .ok s') :
    s'.Inv cluster slice master ∧ s'.applied = s.applied ∧ s'.total cluster slice master =
      s.total cluster slice master + ((s'.hosts grp).values slice - (s.hosts grp).values slice) := by
  obtain ⟨entry, p, r⟩ := inv.replicas grp lt
  obtain ⟨⟨h, out⟩, received, run⟩ := Run.do_ok.mp run
  simp only [Host.receive, type, here, r.found] at received
  obtain ⟨⟨entry', p', found, shares, place⟩, ⟨buffer, server⟩, types⟩ :=
    Host.handleUpdate_kept (here.symm ▸ r.found) r.shares received
  rw [here] at found
  have none : out.filter (·.type = .kSyncRequest) = [] := by
    rw [List.filter_eq_nil_iff]
    intro m mem
    simp [types m mem]
  have replica : Host.Replica slice master grp h entry' p' := by
    refine ⟨found, shares, place.id.trans r.id, ?_, ?_, ?_, ?_⟩ <;> rw [server]
    · exact r.grpId
    · exact r.table
    · exact r.mastered
    · rw [place.size]
      exact r.last
  have last : h.last slice = (s.hosts grp).last slice := by
    rw [Host.last, server]
    rfl
  cases run
  rw [none, List.append_nil]
  refine ⟨inv.update replica (fun msg mem => .inl mem) _, rfl, ?_⟩
  rw [total_update inv.lt lt, stake, stake, last]
  simp only [Function.update_self]
  split <;> abel

theorem receive_remind (inv : s.Inv cluster slice master) {msg : Msg α} (type : msg.type = .kSyncReminder)
    (run : s.receive cluster env master msg = .ok s') :
    s'.Inv cluster slice master ∧ s'.applied = s.applied ∧
      s'.total cluster slice master = s.total cluster slice master := by
  obtain ⟨entry, p, r⟩ := inv.replicas master inv.lt
  obtain ⟨⟨h, out⟩, received, run⟩ := Run.do_ok.mp run
  simp only [Host.receive, type] at received
  cases run
  split at received
  · -- the server has no slice of this id: the reminder is queued again
    cases received
    have none : [msg].filter (·.type = .kSyncRequest) = [] := by simp [type]
    rw [none, List.append_nil, Function.update_eq_self]
    exact ⟨inv, rfl, rfl⟩
  · obtain ⟨h', out', entry', p', sent, replica, place, mem, msgs⟩ := Host.handleSyncReminder_ok cluster r
    rw [received] at sent
    cases sent
    have all : out.filter (·.type = .kSyncRequest) = out := by
      rw [List.filter_eq_self]
      intro m mem
      obtain ⟨values, sync⟩ := (msgs m mem).sync
      simp [sync.type]
    have away : flight master out = 0 := by
      have none : out.filter (fun msg => msg.dst.grp = (master : Int)) = [] := by
        rw [List.filter_eq_nil_iff]
        intro m mem
        obtain ⟨grp, -, other, dst⟩ := (msgs m mem).dst
        simpa [dst] using other
      rw [flight, none]
      rfl
    rw [all]
    refine ⟨inv.update replica ?_ _, rfl, ?_⟩
    · intro m mem
      rcases List.mem_append.mp mem with mem | mem
      · exact .inl mem
      · exact .inr (.inr (msgs m mem))
    · rw [total_update inv.lt inv.lt, replica.stake_eq_values, r.stake_eq_values, mem, place.data, place.size,
        flight_append, away]
      abel

section Deliver

variable {grp : Nat} {msg : Msg α} {values : List α} {bandwidth : Int} {entry : ParamEntry α} {p : Param α}

theorem receive_sync (r : Host.Replica slice master grp (s.hosts grp) entry p) (sync : Host.SyncMsg slice msg values)
    (run : s.receive cluster env grp (Host.withBandwidth msg bandwidth) = .ok s') :
    ∃ h response, (s.hosts grp).handleSyncRequest (Host.withBandwidth msg bandwidth) = .ok (h, response) ∧
      values.length = p.size ∧ s' = { s with
        hosts := Function.update s.hosts grp h
        net := s.net ++ response.toList.filter (·.type = .kSyncRequest) } := by
  have type : (Host.withBandwidth msg bandwidth).type = .kSyncRequest := sync.type
  have here : (Host.withBandwidth msg bandwidth).sliceId = slice := sync.slice
  obtain ⟨⟨h, out⟩, received, run⟩ := Run.do_ok.mp run
  simp only [Host.receive, type, here, r.found] at received
  obtain ⟨⟨h', response⟩, handled, received⟩ := Run.do_ok.mp received
  cases received
  cases run
  exact ⟨_, _, handled, Host.handleSyncRequest_length r sync handled, rfl⟩

/-- Changes arrive at the master. -/
theorem receive_master (inv : s.Inv cluster slice master) (sync : Host.SyncMsg slice msg values)
    (run : s.receive cluster env master (Host.withBandwidth msg bandwidth) = .ok s') :
    s'.Inv cluster slice master ∧ s'.applied = s.applied ∧
      s'.total cluster slice master = s.total cluster slice master + coord values := by
  obtain ⟨entry, p, r⟩ := inv.replicas master inv.lt
  obtain ⟨h, response, handled, length, rfl⟩ := receive_sync r sync run
  rw [Host.handleSyncRequest_master r sync length] at handled
  cases handled
  have replica : Host.Replica slice master master ((s.hosts master).merge slice entry p values) _
      (p.setLocalVersion (p.localVersion + 1)) :=
    ⟨Function.update_self .., by simp [ParamEntry.setFront, r.shares], r.id, r.grpId, r.table, r.mastered, r.last⟩
  have after : stake slice master ((s.hosts master).merge slice entry p values) master =
      coord ((s.hosts master).mem.read p.data.ptr p.size) + coord values := by
    have sum : (List.zipWith (· + ·) ((s.hosts master).mem.read p.data.ptr p.size) values).length = p.size := by
      simp [length]
    rw [replica.stake_eq_values, ← coord_zipWith_add (by simp [length])]
    exact congrArg coord (Mem.read_write_of_length _ sum)
  refine ⟨inv.update replica (fun m mem => .inl (by simpa using mem)) _, rfl, ?_⟩
  rw [total_update inv.lt inv.lt, after, r.stake_eq_values]
  simp

/-- The master's values arrive at another group. -/
theorem receive_other (inv : s.Inv cluster slice master) (lt : grp < cluster.proto.nserverGroups)
    (other : grp ≠ master) (src : msg.src.grp = master) (sync : Host.SyncMsg slice msg values)
    (run : s.receive cluster env grp (Host.withBandwidth msg bandwidth) = .ok s') :
    s'.Inv cluster slice master ∧ s'.applied = s.applied ∧
      s'.total cluster slice master = s.total cluster slice master := by
  obtain ⟨entry, p, r⟩ := inv.replicas grp lt
  obtain ⟨prev, last, prevLength⟩ := r.last other
  obtain ⟨h, response, handled, length, rfl⟩ := receive_sync r sync run
  rw [Host.handleSyncRequest_other r other sync length last] at handled
  have changes : ((s.hosts grp).changes p prev).length = p.size := by simp [Host.changes, prevLength]
  have before := r.stake_eq_changes other last prevLength
  have adopted : ∀ cur prev : List α, cur.length = p.size → prev.length = p.size →
      Host.Replica slice master grp ((s.hosts grp).adopt slice p cur prev) entry p ∧
        stake slice master ((s.hosts grp).adopt slice p cur prev) grp = coord cur - coord prev := by
    intro cur prev curLength prevLength
    have found : ((s.hosts grp).adopt slice p cur prev).server.lastData slice = some prev := Function.update_self ..
    have replica : Host.Replica slice master grp ((s.hosts grp).adopt slice p cur prev) entry p :=
      ⟨r.found, r.shares, r.id, r.grpId, r.table, r.mastered, fun _ => ⟨prev, found, prevLength⟩⟩
    refine ⟨replica, ?_⟩
    rw [replica.stake_eq_changes other found prevLength, ← coord_zipWith_sub (by rw [curLength, prevLength]),
      Host.changes]
    congr 2
    exact Mem.read_write_of_length _ curLength
  by_cases bandwidthLeft : 0 < bandwidth
  · rw [if_pos bandwidthLeft] at handled
    cases handled
    obtain ⟨replica, after⟩ := adopted
      (List.zipWith (· + ·) ((s.hosts grp).changes p prev) values)
      (List.zipWith (· + ·) ((s.hosts grp).changes p prev) values) (by simp [changes, length]) (by simp [changes, length])
    refine ⟨inv.update replica ?_ _, rfl, ?_⟩
    · intro m mem
      rcases List.mem_append.mp mem with mem | mem
      · exact .inl mem
      · obtain rfl := List.mem_singleton.mp (List.mem_of_mem_filter mem)
        exact .inr (.inl ⟨⟨_, rfl, rfl, rfl⟩, src⟩)
    · rw [total_update inv.lt lt, after, before, flight_append]
      simp [flight, Msg.payload, src]
  · rw [if_neg bandwidthLeft] at handled
    cases handled
    obtain ⟨replica, after⟩ := adopted (List.zipWith (· + ·) values ((s.hosts grp).changes p prev)) values
      (by simp [changes, length]) length
    refine ⟨inv.update replica (fun m mem => .inl (by simpa using mem)) _, rfl, ?_⟩
    rw [total_update inv.lt lt, after, before, coord_zipWith_add (by rw [changes, length])]
    simp

end Deliver

/-- **One step** keeps the invariant, and changes the total by the update it makes, if any. -/
theorem step_conserves (inv : s.Inv cluster slice master) {action : SyncAction α}
    (run : s.step cluster env slice master action = .ok s') :
    s'.Inv cluster slice master ∧
      s'.total cluster slice master - s'.applied = s.total cluster slice master - s.applied := by
  cases action with
  | update grp msg =>
    simp only [step] at run
    split at run
    · rename_i taken
      obtain ⟨lt, type, here⟩ := taken
      obtain ⟨t, received, run⟩ := Run.do_ok.mp run
      obtain ⟨kept, -, total⟩ := receive_update inv lt type here received
      cases run
      refine ⟨⟨kept.lt, kept.replicas, kept.messages⟩, ?_⟩
      show t.total cluster slice master - (s.applied + _) = _
      rw [total]
      abel
    · cases run
      exact ⟨inv, rfl⟩
  | remind msg =>
    simp only [step] at run
    split at run
    · rename_i type
      obtain ⟨kept, applied, total⟩ := receive_remind inv type run
      exact ⟨kept, by rw [applied, total]⟩
    · cases run
      exact ⟨inv, rfl⟩
  | deliver i bandwidth =>
    simp only [step] at run
    split at run
    · cases run
      exact ⟨inv, rfl⟩
    · rename_i msg here
      have left : Inv cluster slice master { s with net := s.net.eraseIdx i } :=
        ⟨inv.lt, inv.replicas, fun m mem => inv.messages m (List.mem_of_mem_eraseIdx mem)⟩
      have gone : flight master s.net = _ := flight_eraseIdx here
      rcases inv.messages msg (List.mem_of_getElem? here) with ⟨⟨values, sync⟩, dst⟩ | sent
      · rw [dst, Int.toNat_natCast] at run
        have payload : msg.payload = coord values := by rw [Msg.payload, sync.frames]
        obtain ⟨kept, applied, total⟩ := receive_master left sync run
        refine ⟨kept, ?_⟩
        rw [if_pos dst, payload] at gone
        rw [applied, total, SyncSystem.total, SyncSystem.total, gone]
        abel
      · obtain ⟨values, sync⟩ := sent.sync
        obtain ⟨grp, lt, other, dst⟩ := sent.dst
        rw [dst, Int.toNat_natCast] at run
        obtain ⟨kept, applied, total⟩ := receive_other left lt other sent.src sync run
        have away : ¬ msg.dst.grp = (master : Int) := by omega
        refine ⟨kept, ?_⟩
        rw [if_neg away, zero_add] at gone
        rw [applied, total, SyncSystem.total, SyncSystem.total, gone]

theorem Initial.inv (start : s.Initial cluster env slice master) : s.Inv cluster slice master where
  lt := start.lt
  replicas := by
    intro grp lt
    obtain ⟨h, msg, out, type, here, grpId, table, fresh, received⟩ := start.put grp lt
    have lt' := start.lt
    obtain ⟨entry, p, r, -⟩ := Host.receive_put type here grpId table fresh (by omega) received
    exact ⟨entry, p, r⟩
  messages := by simp [start.net]

/-- After the puts no group but the master has anything to add. -/
theorem Initial.total_eq (start : s.Initial cluster env slice master) :
    s.total cluster slice master = (s.hosts master).values slice := by
  have others : ∀ grp ∈ (Finset.range cluster.proto.nserverGroups).erase master,
      (s.hosts grp).values slice - (s.hosts grp).last slice = 0 := by
    intro grp mem
    obtain ⟨other, lt⟩ := Finset.mem_erase.mp mem
    obtain ⟨h, msg, out, type, here, grpId, table, fresh, received⟩ := start.put grp (Finset.mem_range.mp lt)
    have lt' := start.lt
    obtain ⟨entry, p, r, last⟩ := Host.receive_put type here grpId table fresh
      (fun _ => by have := Finset.mem_range.mp lt; omega) received
    rw [r.values_eq, Host.last, last other, sub_self]
  rw [total, Finset.sum_eq_zero others, start.net]
  simp [flight]

/-- **No update is lost or counted twice**: in every run, the master's values, the changes kept by the
other groups and the changes in flight add up to the master's first values and all updates. -/
theorem sync_conserves (start : s.Initial cluster env slice master) {actions : List (SyncAction α)}
    (run : actions.foldlM (step cluster env slice master) s = .ok s') :
    s'.total cluster slice master = (s.hosts master).values slice + s'.applied := by
  have kept := Run.foldlM_inv (fun _ t => t.Inv cluster slice master ∧
      t.total cluster slice master - t.applied = s.total cluster slice master - s.applied)
    (fun _ _ _ _ before pass => by
      obtain ⟨inv, total⟩ := step_conserves before.1 pass
      exact ⟨inv, total.trans before.2⟩)
    ⟨start.inv, rfl⟩ run
  rw [start.applied, sub_zero, start.total_eq] at kept
  exact sub_eq_iff_eq_add.mp kept.2

/-! ## A run with two groups -/

/-- A server of the group `grp` before the put. -/
def fresh (grp : Nat) : Host ℚ where
  mem := ⟨fun _ _ => 0, 0⟩
  shard := fun _ => none
  server := ⟨grp, 0, [0], fun _ => [], fun _ => none, [], 0⟩

/-- One float, put by a worker group with a single share. -/
def put : Msg ℚ where
  type := .kPut
  frames := [.format [.int 1, .float 1, .float 1, .ptr none], .data [1], .format [.int 1]]

/-- An updater that adds the gradient. -/
def adder : Env ℚ where
  update _ _ data grad history := (List.zipWith (· + ·) data grad, grad, history)
  mix _ x _ := x

def twoGroups : Cluster := ⟨⟨2, 2, 1, 1⟩, fun grp _ => grp⟩

def twoReplicas : SyncSystem ℚ where
  hosts grp := match (fresh grp).receive twoGroups adder put with
    | .ok (h, _) => h
    | .error _ => fresh grp
  net := []
  applied := 0

theorem twoReplicas_initial : twoReplicas.Initial twoGroups adder 0 0 where
  lt := by decide
  put := by
    intro grp lt
    refine ⟨fresh grp, put, [], rfl, rfl, rfl, rfl, rfl, ?_⟩
    match grp, lt with
    | 0, _ => rfl
    | 1, _ => rfl
  net := rfl
  applied := rfl

/-- An update of the slice by `x`. -/
def updateBy (x : ℚ) : Msg ℚ where
  type := .kUpdate
  frames := [.format [.int 1], .data [x], .format [.int 1]]

/-- Two updates at the master and one at the other group, which is then synchronised with the master. -/
def schedule : List (SyncAction ℚ) :=
  [.update 0 (updateBy 1), .update 1 (updateBy 5), .update 0 (updateBy 2), .remind { type := .kSyncReminder },
    .deliver 0 1, .deliver 0 0]

theorem schedule_values :
    (schedule.foldlM (step twoGroups adder 0 0) twoReplicas).map (fun s => (s.hosts 0).values 0 0) = .ok 9 := by
  decide +kernel

theorem sync_conserves_schedule : ∃ s', schedule.foldlM (step twoGroups adder 0 0) twoReplicas = .ok s' ∧
    s'.total twoGroups 0 0 = (twoReplicas.hosts 0).values 0 + s'.applied ∧ (s'.hosts 0).values 0 0 = 9 := by
  have values := schedule_values
  generalize run : schedule.foldlM (step twoGroups adder 0 0) twoReplicas = result at values
  cases result with
  | error => cases values
  | ok s' => exact ⟨s', rfl, sync_conserves twoReplicas_initial run, Except.ok.inj values⟩

end SyncSystem
end Singa
