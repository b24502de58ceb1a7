import Singa.Trainer.Control
import Singa.Trainer.System
import Singa.Trainer.Updates

/-!
# The updates in all processes

`Rounds` fixes the stubs and servers that take part in the updates of one
parameter. `Sim` relates their entries and the messages in flight to the control
flow. Every step of the control flow is one of the processes, whatever the
gradients and the updater, so what the control flow can do is all that decides
how the updates go on.
-/

namespace Singa
set_option autoImplicit false

open Memory Trainer

variable {α : Type}

/-- The parts of the worker groups that update a parameter, and its slices in one server group. -/
structure Rounds (α : Type) where
  site : Site α
  parts : List GroupPart
  owner : Int
  start : Nat
  sizes : List Nat
  dstGrp : Int
  total : Int

namespace Rounds

variable (c : Rounds α)

def plan : Plan := ⟨c.parts, c.sizes.length, c.total⟩

@[simp] theorem plan_parts : c.plan.parts = c.parts := rfl

@[simp] theorem plan_slices : c.plan.slices = c.sizes.length := rfl

@[simp] theorem plan_total : c.plan.total = c.total := rfl

def server (idx : Nat) : Int := c.site.slice2server.getD (c.start + idx) 0

/-- The process of the server that keeps the slice `idx`. -/
def home (idx : Nat) : Int := c.site.cluster.procsIdOf c.dstGrp (c.server idx)

def size (idx : Nat) : Nat := c.sizes.getD idx 0

def slice (idx : Nat) : Int := (c.start + idx : Nat)

/-- All groups use one server group, which serves every slice. -/
structure Valid : Prop where
  per : c.site.cluster.proto.nworkerGroupsPerServerGroup ≠ 0
  group : ∀ e ∈ c.parts, (c.site.trainer e.proc).dstGrp e.grp = c.dstGrp
  serves : c.start + c.sizes.length ≤ c.site.slice2server.length
  distinct : (c.parts.map GroupPart.stubAddr).Nodup

/-! ## Messages -/

/-- The update of a share, sent to the stub of its process. -/
structure FromWorker (e : GroupPart) (msg : Msg α) : Prop where
  grp : msg.src.grp = e.grp
  dst : msg.dst.type = .kStub
  type : msg.type = .kUpdate
  paramId : msg.paramId = c.owner

/-- The request of a part for a slice. -/
structure FromStub (e : GroupPart) (idx : Nat) (msg : Msg α) : Prop where
  src : msg.src = e.stubAddr
  dst : msg.dst = ⟨c.dstGrp, c.server idx, .kServer⟩
  type : msg.type = .kUpdate
  paramId : msg.paramId = c.owner
  sliceId : msg.sliceId = c.slice idx
  request : Request (c.size idx) e.numLocal msg

/-- The response for a slice with its new version. -/
structure FromServer (e : GroupPart) (idx : Nat) (version : Int) (msg : Msg α) : Prop where
  dst : msg.dst = e.stubAddr
  type : msg.type = .kRUpdate
  paramId : msg.paramId = c.owner
  sliceId : msg.sliceId = c.slice idx
  version : msg.trgtVersion = version
  layout : ∃ numLocal, Request (c.size idx) numLocal msg.hop

/-- The packet that a message of the control flow stands for. -/
def Means : Signal → Packet α → Prop
  | .worker e, packet => packet.proc = e.proc ∧ c.FromWorker e packet.msg
  | .request e idx, packet => packet.proc = c.home idx ∧ c.FromStub e idx packet.msg
  | .response e idx version, packet => packet.proc = e.proc ∧ c.FromServer e idx version packet.msg

/-! ## Entries -/

/-- The share that keeps the stub's books. -/
structure Front (p : Param α) (seat : Seat) : Prop where
  tabled : p.Tabled
  sizes : p.sliceSize = c.sizes
  start : p.sliceStart = c.start
  pending : p.pendingUpdate = seat.pending
  numPending : p.numPendingRequests = seat.numPending

/-- The entry of a part. -/
structure Sits (e : GroupPart) (entry : ParamEntry α) (seat : Seat) : Prop where
  front : ∃ p rest, entry.shares = p :: rest ∧ c.Front p seat
  owners : ∀ q ∈ entry.shares, q.owner = c.owner
  versions : ∀ q ∈ entry.shares, q.version = seat.version
  locals : entry.shares.map (·.localVersion) = seat.localVersions
  numLocal : entry.numLocal = e.numLocal
  numUpdate : entry.numUpdate = seat.numUpdate

/-- A slice at its server, with the requests buffered for it. -/
structure Keeps (idx : Nat) (entry : ParamEntry α) (desk : Desk) (requests : List (Msg α)) : Prop where
  param : ∃ q, entry.shares = [q] ∧ q.size = c.size idx ∧ q.localVersion = desk.version
  numTotal : entry.numTotal = c.total
  numUpdate : entry.numUpdate = desk.numUpdate
  buffer : List.Forall₂ (fun e msg => c.FromStub e idx msg) desk.buffer requests

/-- The processes, the servers and the messages in flight do what the control flow says. -/
structure Sim (s : System α) (a : Control) : Prop where
  seat : ∀ e ∈ c.parts, ∃ entry, (s.procs e.proc).workerShard (hash e.grp c.owner) = some entry ∧
    c.Sits e entry (a.seats e)
  desk : ∀ idx < c.sizes.length, ∃ entry, (s.procs (c.home idx)).serverShard (c.slice idx) = some entry ∧
    c.Keeps idx entry (a.desks idx) ((s.servers (c.dstGrp, c.server idx)).bufferRequests (c.slice idx))
  net : List.Forall₂ c.Means a.net s.net

variable {c} {s : System α} {a : Control} {e e' : GroupPart} {idx : Nat} {p q : Param α} {seat seat' : Seat}
  {entry entry' : ParamEntry α}

/-! ## The bookkeeping share -/

namespace Front

theorem numSlices (front : c.Front p seat) : p.numSlices = c.sizes.length := by
  rw [← front.tabled.sizes, front.sizes]

theorem sizeOf (front : c.Front p seat) (idx : Nat) : p.sizeOf idx = c.size idx := by
  rw [Param.sizeOf, front.sizes, size]

theorem serves (front : c.Front p seat) (v : c.Valid) (proc : Int) : (c.site.trainer proc).Serves p := by
  unfold Trainer.Serves
  rw [front.start, front.numSlices]
  exact v.serves

theorem setVersion (front : c.Front p seat) (version : Int) : c.Front (p.setVersion version) seat :=
  ⟨⟨front.tabled.offsets, front.tabled.sizes⟩, front.sizes, front.start, front.pending, front.numPending⟩

theorem setLocalVersion (front : c.Front p seat) (version : Int) : c.Front (p.setLocalVersion version) seat :=
  ⟨⟨front.tabled.offsets, front.tabled.sizes⟩, front.sizes, front.start, front.pending, front.numPending⟩

/-- The versions are no part of it. -/
theorem books (front : c.Front p seat) (pending : seat'.pending = seat.pending)
    (numPending : seat'.numPending = seat.numPending) : c.Front p seat' :=
  ⟨front.tabled, front.sizes, front.start, front.pending.trans pending.symm, front.numPending.trans numPending.symm⟩

end Front

/-! ## One entry or slice changes -/

theorem hash_ne (v : c.Valid) (mem : e ∈ c.parts) (mem' : e' ∈ c.parts) (other : e' ≠ e) (proc : e'.proc = e.proc) :
    hash e'.grp c.owner ≠ hash e.grp c.owner := by
  intro same
  have grp : e'.grp = e.grp := by
    unfold hash at same
    omega
  refine other (List.inj_on_of_nodup_map v.distinct mem' mem ?_)
  rw [GroupPart.stubAddr, GroupPart.stubAddr, grp, proc]

theorem Sim.setSeat (v : c.Valid) (sim : c.Sim s a) (mem : e ∈ c.parts) (m : Mem α) (sits : c.Sits e entry' seat') :
    c.Sim (s.setStub e.proc m
      (Function.update (s.procs e.proc).workerShard (hash e.grp c.owner) (some entry'))) (a.setSeat e seat') := by
  refine ⟨fun e' mem' => ?_, fun idx lt => ?_, sim.net⟩
  · by_cases same : e' = e
    · subst same
      exact ⟨entry', by simp [System.setStub], by simpa using sits⟩
    · obtain ⟨entry, found, sits'⟩ := sim.seat e' mem'
      refine ⟨entry, ?_, by simpa [same] using sits'⟩
      by_cases proc : e'.proc = e.proc
      · have key := hash_ne v mem mem' same proc
        rw [proc] at found
        simpa [System.setStub, proc, key] using found
      · simpa [System.setStub, proc] using found
  · obtain ⟨entry, found, keeps⟩ := sim.desk idx lt
    refine ⟨entry, ?_, keeps⟩
    by_cases proc : c.home idx = e.proc
    · rw [proc] at found
      simpa [System.setStub, proc] using found
    · simpa [System.setStub, proc] using found

theorem Sim.setDesk (sim : c.Sim s a) {h : Host α} {desk' : Desk} {requests : List (Msg α)}
    (shard : h.shard = Function.update (s.procs (c.home idx)).serverShard (c.slice idx) (some entry'))
    (buffers : h.server.bufferRequests =
      Function.update (s.servers (c.dstGrp, c.server idx)).bufferRequests (c.slice idx) requests)
    (keeps : c.Keeps idx entry' desk' requests) :
    c.Sim (s.setHost (c.home idx) (c.dstGrp, c.server idx) h) (a.setDesk idx desk') := by
  refine ⟨fun e mem => ?_, fun idx' lt => ?_, sim.net⟩
  · obtain ⟨entry, found, sits⟩ := sim.seat e mem
    refine ⟨entry, ?_, sits⟩
    by_cases proc : e.proc = c.home idx
    · rw [proc] at found
      simpa [System.setHost, proc] using found
    · simpa [System.setHost, proc] using found
  · by_cases same : idx' = idx
    · subst same
      refine ⟨entry', by simp [System.setHost, shard], ?_⟩
      simpa [System.setHost, buffers] using keeps
    · obtain ⟨entry, found, keeps'⟩ := sim.desk idx' lt
      have other : c.slice idx' ≠ c.slice idx := by
        unfold slice
        omega
      refine ⟨entry, ?_, ?_⟩
      · by_cases proc : c.home idx' = c.home idx
        · rw [proc] at found
          simpa [System.setHost, proc, shard, other] using found
        · simpa [System.setHost, proc] using found
      · rw [Control.setDesk_desks, if_neg same]
        by_cases server : c.server idx' = c.server idx
        · rw [server] at keeps'
          simpa [System.setHost, server, buffers, other] using keeps'
        · simpa [System.setHost, server] using keeps'

theorem Sim.send (sim : c.Sim s a) {signals : List Signal} {out : List (Msg α)}
    (means : List.Forall₂ c.Means signals (out.map c.site.route)) : c.Sim (s.send c.site out) (a.send signals) :=
  ⟨sim.seat, sim.desk, List.rel_append sim.net means⟩

/-! ## The handlers -/

section Handlers

variable {packet : Packet α} {version : Int}

theorem Sits.wait (sits : c.Sits e entry seat) : c.Sits e { entry with numUpdate := entry.numUpdate + 1 } seat.wait := by
  obtain ⟨p, rest, shares, front⟩ := sits.front
  exact ⟨⟨p, rest, shares, front.books rfl rfl⟩, sits.owners, sits.versions, sits.locals, sits.numLocal,
    by rw [sits.numUpdate]; rfl⟩

/-- A change of the front share outside its versions and its name. -/
theorem Sits.setFront {rest : List (Param α)} {numUpdate : Int} (sits : c.Sits e entry seat)
    (shares : entry.shares = p :: rest) (front : c.Front q seat') (owner : q.owner = p.owner)
    (version : q.version = p.version) (localVersion : q.localVersion = p.localVersion)
    (versions : seat'.version = seat.version) (locals : seat'.localVersions = seat.localVersions)
    (count : numUpdate = seat'.numUpdate) : c.Sits e { entry.setFront q with numUpdate } seat' := by
  have owners := sits.owners
  have vs := sits.versions
  have ls := sits.locals
  rw [shares] at owners vs ls
  have shares' : (entry.setFront q).shares = q :: rest := by
    rw [ParamEntry.setFront, shares]
    rfl
  refine ⟨⟨q, rest, shares', front⟩, ?_, ?_, ?_, sits.numLocal, count⟩
  · simp only [shares']
    simpa [owner] using owners
  · simp only [shares', versions]
    simpa [version] using vs
  · simp only [shares', locals, ← ls]
    simp [localVersion]

/-- All shares have the version in their blob. -/
theorem Sits.setVersion (sits : c.Sits e entry seat) (version : Int) :
    c.Sits e (entry.setVersion version) { seat with version } := by
  obtain ⟨p, rest, shares, front⟩ := sits.front
  have shares' : (entry.setVersion version).shares = entry.shares.map (·.setVersion version) := rfl
  refine ⟨⟨p.setVersion version, rest.map (·.setVersion version), ?_, (front.setVersion version).books rfl rfl⟩, ?_, ?_,
    ?_, sits.numLocal, sits.numUpdate⟩
  · rw [shares', shares, List.map_cons]
  · intro q mem
    obtain ⟨q', mem', rfl⟩ := List.mem_map.mp mem
    exact sits.owners q' mem'
  · intro q mem
    obtain ⟨q', -, rfl⟩ := List.mem_map.mp mem
    rfl
  · rw [shares', List.map_map]
    exact sits.locals

theorem Sits.parse {rest : List (Param α)} (sits : c.Sits e entry seat) (shares : entry.shares = p :: rest)
    (front : c.Front p seat) (idx : Nat) (version : Int) :
    c.Sits e (if (p.numPendingRequests - 1) % p.numSlices = 0 then (entry.setFront (updatedSlice p idx)).setVersion version
      else entry.setFront (updatedSlice p idx)) (seat.parse c.sizes.length idx version) := by
  have pending : p.pendingUpdate.set idx false = seat.pending.set idx false := by rw [front.pending]
  have count : p.numPendingRequests - 1 = seat.numPending - 1 := by rw [front.numPending]
  have answered : c.Sits e (entry.setFront (updatedSlice p idx))
      { seat with pending := seat.pending.set idx false, numPending := seat.numPending - 1 } :=
    sits.setFront shares ⟨⟨front.tabled.offsets, front.tabled.sizes⟩, front.sizes, front.start, pending, count⟩ rfl rfl rfl
      rfl rfl sits.numUpdate
  rw [count, front.numSlices]
  by_cases last : (seat.numPending - 1) % (c.sizes.length : Int) = 0
  · simpa [Seat.parse, last] using answered.setVersion version
  · simpa [Seat.parse, last] using answered

/-- The stub's requests. -/
theorem means_request (v : c.Valid) (mem : e ∈ c.parts) (front : c.Front p seat) (owner : p.owner = c.owner)
    (step : Int) (m : Mem α) (idx : Nat) :
    c.Means (.request e idx) (c.site.route ((c.site.trainer e.proc).updateRequest step m e.numLocal e.grp
      ((c.site.trainer e.proc).dstGrp e.grp) p idx)) := by
  have server : (c.site.trainer e.proc).serverOf (p.sliceStart + idx) = c.server idx := by rw [front.start]; rfl
  refine ⟨?_, rfl, ?_, rfl, owner, ?_, ?_⟩
  · simp only [Site.route, updateRequest, sliceMsg, v.group e mem, server]
    rfl
  · simp only [Site.route, updateRequest, sliceMsg, v.group e mem, server]
  · simp only [Site.route, updateRequest, sliceMsg, front.start]
    rfl
  · rw [← front.sizeOf idx]
    exact updateRequest_request ..

/-- The responses of a server. -/
theorem means_responses {msgs rs : List (Msg α)} {es : List GroupPart}
    (sources : List.Forall₂ (fun e msg => c.FromStub e idx msg) es msgs)
    (answers : List.Forall₂ (Param.Answers (c.size idx)) msgs rs) (version : Int) :
    List.Forall₂ c.Means (es.map (.response · idx version))
      ((rs.map (·.setTrgt c.owner (c.slice idx) version)).map c.site.route) := by
  induction sources generalizing rs with
  | nil =>
    cases answers
    exact .nil
  | @cons e msg es msgs source _ ih =>
    cases answers with
    | @cons _ r _ rs answer answers =>
      have dst : r.dst = e.stubAddr := answer.dst.trans source.src
      refine .cons ⟨?_, dst, answer.type, rfl, rfl, rfl, e.numLocal, ?_⟩ (ih answers)
      · simp only [Site.route, Msg.setTrgt, dst]
        rfl
      · have layout := answer.layout e.numLocal source.request
        exact ⟨layout.cursor, layout.layout⟩

theorem mem_requests {msgs : List (Msg α)} {es : List GroupPart} {r : Msg α}
    (sources : List.Forall₂ (fun e msg => c.FromStub e idx msg) es msgs) (mem : r ∈ msgs) : ∃ e, c.FromStub e idx r := by
  induction sources with
  | nil => cases mem
  | @cons e msg es msgs source _ ih =>
    rcases List.mem_cons.mp mem with rfl | mem
    · exact ⟨e, source⟩
    · exact ih mem

variable [Field α]

/-- **The stub at a message of a worker.** -/
theorem Sim.worker (v : c.Valid) (sim : c.Sim s a) (mem : e ∈ c.parts) (means : c.Means (.worker e) packet)
    (flags : (a.seats e).pending.length = c.sizes.length) :
    ∃ s', s.handle c.site packet = .ok s' ∧ c.Sim s' (a.collect c.plan e) := by
  obtain ⟨entry, found, sits⟩ := sim.seat e mem
  obtain ⟨p, rest, shares, front⟩ := sits.front
  obtain ⟨proc, msg⟩ := packet
  obtain ⟨here, source⟩ := means
  obtain rfl : proc = e.proc := here
  have found' : (s.procs e.proc).workerShard (hash msg.hop.src.grp msg.hop.paramId) = some entry := by
    rw [← found, ← source.grp, ← source.paramId]
    rfl
  have key : hash msg.hop.src.grp msg.hop.paramId = hash e.grp c.owner := by
    rw [← source.grp, ← source.paramId]
    rfl
  have grp : msg.hop.src.grp = e.grp := source.grp
  rw [Control.collect]
  by_cases full : e.numLocal ≤ (a.seats e).numUpdate + 1
  · obtain ⟨m', averaged⟩ : ∃ m', (if 1 < entry.numLocal then averageGrad (s.procs e.proc).mem
        { entry with numUpdate := entry.numUpdate + 1 } else .ok (s.procs e.proc).mem) = .ok m' := by
      split
      · refine ⟨_, Run.do_ok.mpr ⟨p, ?_, rfl⟩⟩
        rw [ParamEntry.front, shares]
      · exact ⟨_, rfl⟩
    have owner : p.owner = c.owner := sits.owners p (by rw [shares]; exact List.mem_cons_self)
    have sent : (c.site.trainer e.proc).handleUpdate (s.procs e.proc).mem entry msg.hop = _ :=
      handleUpdate_send (by rw [sits.numLocal, sits.numUpdate]; exact full) averaged v.per shares front.tabled
        (front.serves v e.proc) (by rw [front.pending, flags, front.numSlices])
    have handled : s.handle c.site ⟨e.proc, msg⟩ = _ :=
      System.handle_stub source.dst (handleLocalMsg_update source.type found' sent)
    refine ⟨_, handled, ?_⟩
    rw [if_pos full, key]
    refine (sim.setSeat v mem m' ?_).send ?_
    · refine sits.setFront shares ?_ rfl rfl rfl rfl rfl rfl
      have all : (p.requested p.numSlices).pendingUpdate = List.replicate c.sizes.length true := by
        simp [Param.requested, front.pending, front.numSlices, ← flags]
      exact ⟨⟨front.tabled.offsets, front.tabled.sizes⟩, front.sizes, front.start, all, by
        simp [Param.requested, front.numPending, front.numSlices, Seat.request, plan]⟩
    · rw [List.map_map, front.numSlices, plan_slices, List.forall₂_map_left_iff, List.forall₂_map_right_iff, List.forall₂_same]
      intro idx _
      simp only [Function.comp_apply, grp, sits.numLocal]
      exact means_request v mem front owner _ _ _
  · have waits : (c.site.trainer e.proc).handleUpdate (s.procs e.proc).mem entry msg.hop = _ :=
      handleUpdate_wait (by rw [sits.numLocal, sits.numUpdate]; omega)
    have handled : s.handle c.site ⟨e.proc, msg⟩ = _ :=
      System.handle_stub source.dst (handleLocalMsg_update source.type found' waits)
    refine ⟨_, handled, ?_⟩
    rw [if_neg full, key, System.send_nil]
    exact sim.setSeat v mem (s.procs e.proc).mem sits.wait

/-- **The server at a request.** -/
theorem Sim.request {a' : Control} (sim : c.Sim s a) (lt : idx < c.sizes.length)
    (means : c.Means (.request e idx) packet) (serve : a.serve c.plan e idx = some a') :
    ∃ s', s.handle c.site packet = .ok s' ∧ c.Sim s' a' := by
  obtain ⟨entry, found, keeps⟩ := sim.desk idx lt
  obtain ⟨q, shares, size, version⟩ := keeps.param
  obtain ⟨proc, msg⟩ := packet
  obtain ⟨here, source⟩ := means
  obtain rfl : proc = c.home idx := here
  replace source : c.FromStub e idx msg := source
  have request := source.request
  have hop : msg.hop = msg := request.firstFrame
  have server : (msg.dst.grp, msg.dst.idOrProc) = (c.dstGrp, c.server idx) := by rw [source.dst]
  have found' : (s.host (c.home idx) (c.dstGrp, c.server idx)).shard msg.sliceId = some entry := by
    rw [source.sliceId]
    exact found
  -- what the server does is what becomes of the system
  have handled {h' : Host α} {out : List (Msg α)}
      (run : (s.host (c.home idx) (c.dstGrp, c.server idx)).handleUpdate c.site.env msg = .ok (h', out)) :
      s.handle c.site ⟨c.home idx, msg⟩ = .ok ((s.setHost (c.home idx) (c.dstGrp, c.server idx) h').send c.site out) := by
    rw [← server]
    apply System.handle_server (by rw [source.dst])
    simp only [hop, Host.receive, source.type, server, found']
    exact run
  rw [← size] at request
  rw [Control.serve] at serve
  split at serve
  · split at serve
    · rename_i all
      cases serve
      have buffered : ∀ r ∈ (s.host (c.home idx) (c.dstGrp, c.server idx)).server.bufferRequests msg.sliceId,
          ∃ numLocal, Request q.size numLocal r := by
        intro r mem
        rw [source.sliceId] at mem
        obtain ⟨e', source'⟩ := mem_requests keeps.buffer mem
        exact ⟨e'.numLocal, size ▸ source'.request⟩
      obtain ⟨_, _, mem, q', rs, -, -, -, fired, answers, run⟩ :=
        Host.handleUpdate_fire c.site.env found' shares request (by rw [keeps.numUpdate, keeps.numTotal]; exact all) buffered
      rw [source.sliceId, source.paramId, version] at run
      rw [source.sliceId, size] at answers
      have keeps' : c.Keeps idx { entry with numUpdate := 0, shares := [q'] } ⟨(a.desks idx).version + 1, 0, []⟩ [] :=
        ⟨⟨q', rfl, by rw [fired.size, size], by rw [fired.localVersion, version]⟩, keeps.numTotal, rfl, .nil⟩
      refine ⟨_, handled run, (sim.setDesk rfl rfl keeps').send ?_⟩
      exact means_responses (List.rel_append keeps.buffer (.cons source .nil)) answers _
    · cases serve
  · rename_i few
    cases serve
    have run : (s.host (c.home idx) (c.dstGrp, c.server idx)).handleUpdate c.site.env msg = _ :=
      Host.handleUpdate_buffer found' shares request (by
        rw [keeps.numUpdate, keeps.numTotal]
        exact not_le.mp few)
    rw [source.sliceId] at run
    refine ⟨_, handled run, ?_⟩
    have keeps' : c.Keeps idx { entry with numUpdate := entry.numUpdate + e.numLocal }
        { a.desks idx with numUpdate := (a.desks idx).numUpdate + e.numLocal, buffer := (a.desks idx).buffer ++ [e] }
        ((s.servers (c.dstGrp, c.server idx)).bufferRequests (c.slice idx) ++ [msg]) :=
      ⟨⟨q, shares, size, version⟩, keeps.numTotal, congrArg (· + e.numLocal) keeps.numUpdate,
        List.rel_append keeps.buffer (.cons source .nil)⟩
    rw [System.send_nil]
    exact sim.setDesk rfl rfl keeps'

/-- **The stub at a response.** -/
theorem Sim.response {a' : Control} (v : c.Valid) (sim : c.Sim s a) (mem : e ∈ c.parts) (lt : idx < c.sizes.length)
    (means : c.Means (.response e idx version) packet) (parse : a.parse c.plan e idx version = some a') :
    ∃ s', s.handle c.site packet = .ok s' ∧ c.Sim s' a' := by
  obtain ⟨entry, found, sits⟩ := sim.seat e mem
  obtain ⟨p, rest, shares, front⟩ := sits.front
  obtain ⟨proc, msg⟩ := packet
  obtain ⟨here, source⟩ := means
  obtain rfl : proc = e.proc := here
  replace source : c.FromServer e idx version msg := source
  have found' : (s.procs e.proc).workerShard (hash msg.hop.dst.grp msg.hop.paramId) = some entry := by
    rw [← found, ← source.paramId]
    exact congrArg (fun dst => (s.procs e.proc).workerShard (hash dst.grp msg.paramId)) source.dst
  have key : hash msg.hop.dst.grp msg.hop.paramId = hash e.grp c.owner := by
    rw [← source.paramId]
    exact congrArg (fun dst => hash dst.grp msg.paramId) source.dst
  rw [Control.parse] at parse
  split at parse
  · rename_i waits
    cases parse
    have below : idx < p.numSlices := front.numSlices ▸ lt
    have pending : p.pendingUpdate[idx]? = some true := front.pending ▸ waits
    obtain ⟨m', parsed⟩ : ∃ m', Param.parseResponseMsg (s.procs e.proc).mem
        { p with pendingUpdate := p.pendingUpdate.set idx false } msg.hop idx = .ok m' := by
      obtain ⟨numLocal, layout⟩ := source.layout
      obtain ⟨copy, payload, kind, frames⟩ := layout.layout
      cases kind with
      | copied values length =>
        have tabled : ({ p with pendingUpdate := p.pendingUpdate.set idx false } : Param α).Tabled :=
          ⟨front.tabled.offsets, front.tabled.sizes⟩
        rw [← front.sizeOf idx] at length
        exact ⟨_, Param.parseResponseMsg_copied tabled below layout.cursor frames length⟩
      | shared ptr => exact ⟨_, Param.parseResponseMsg_shared layout.cursor frames⟩
    have response : handleUpdateResponse (s.procs e.proc).mem entry msg.hop = _ :=
      handleUpdateResponse_ok shares below (by rw [front.start]; exact source.sliceId) pending parsed
    have handled : s.handle c.site ⟨e.proc, msg⟩ = _ :=
      System.handle_stub (by rw [source.dst]; rfl) (handleLocalMsg_rupdate source.type found' response)
    refine ⟨_, handled, ?_⟩
    have trgt : msg.hop.trgtVersion = version := source.version
    rw [key, System.send_nil, trgt]
    exact sim.setSeat v mem m' (sits.parse shares front idx version)
  · cases parse

end Handlers

/-! ## Steps -/

theorem Sits.update {share : Nat} (sits : c.Sits e entry seat) (here : entry.shares[share]? = some q) :
    c.Sits e { entry with shares := entry.shares.set share (q.setLocalVersion q.version) } (seat.update share) := by
  obtain ⟨p, rest, shares, front⟩ := sits.front
  have mem := List.mem_of_getElem? here
  have version := sits.versions q mem
  refine ⟨?_, ?_, ?_, ?_, sits.numLocal, sits.numUpdate⟩
  · rw [shares] at here ⊢
    cases share with
    | zero =>
      obtain rfl : p = q := Option.some.inj here
      exact ⟨_, rest, rfl, (front.setLocalVersion _).books rfl rfl⟩
    | succ share => exact ⟨p, _, rfl, front.books rfl rfl⟩
  · intro q' mem'
    rcases List.mem_or_eq_of_mem_set mem' with mem' | rfl
    · exact sits.owners q' mem'
    · exact sits.owners q mem
  · intro q' mem'
    rcases List.mem_or_eq_of_mem_set mem' with mem' | rfl
    · exact sits.versions q' mem'
    · exact version
  · rw [List.map_set, sits.locals]
    exact congrArg (seat.localVersions.set share) version

/-- **A share sends its update.** -/
theorem Sim.update (v : c.Valid) (sim : c.Sim s a) (mem : e ∈ c.parts) (share : Nat) (step : Int) :
    c.Sim (s.update e.proc e.grp c.owner share step) (a.update e share) := by
  obtain ⟨entry, found, sits⟩ := sim.seat e mem
  have locals : (a.seats e).localVersions[share]? = entry.shares[share]?.map (·.localVersion) := by
    rw [← sits.locals, List.getElem?_map]
  rw [System.update, Control.update, locals]
  simp only [found]
  cases here : entry.shares[share]? with
  | none => exact sim
  | some q =>
    have version := sits.versions q (List.mem_of_getElem? here)
    simp only [Option.map_some, ← version]
    split
    · exact sim
    · have owner := sits.owners q (List.mem_of_getElem? here)
      have set := sim.setSeat v mem (s.procs e.proc).mem (sits.update here)
      refine ⟨set.seat, set.desk, List.rel_append set.net (.cons ⟨rfl, rfl, rfl, rfl, owner⟩ .nil)⟩

theorem Sim.net_eraseIdx (sim : c.Sim s a) (i : Nat) : List.Forall₂ c.Means (a.net.eraseIdx i) (s.net.eraseIdx i) := by
  rw [List.eraseIdx_eq_take_drop_succ, List.eraseIdx_eq_take_drop_succ]
  exact List.rel_append (List.forall₂_take i sim.net) (List.forall₂_drop (i + 1) sim.net)

/-- The packet of a message in flight. -/
theorem Sim.means (sim : c.Sim s a) {i : Nat} {signal : Signal} (here : a.net[i]? = some signal) :
    ∃ packet, s.net[i]? = some packet ∧ c.Means signal packet := by
  obtain ⟨lt, get⟩ := List.getElem?_eq_some_iff.mp here
  have bound : i < s.net.length := sim.net.length_eq ▸ lt
  have means := sim.net.get lt bound
  rw [List.get_eq_getElem, get] at means
  exact ⟨s.net[i], List.getElem?_eq_getElem bound, means⟩

/-- **Any message arrives.** -/
theorem Sim.deliver [Field α] {a' : Control} (v : c.Valid) (sim : c.Sim s a) (wf : a.Wf c.plan) (i : Nat)
    (run : a.deliver c.plan i = some a') : ∃ s', s.deliver c.site i = .ok s' ∧ c.Sim s' a' := by
  rw [Control.deliver] at run
  cases here : a.net[i]? with
  | none =>
    rw [here] at run
    cases run
    have none : s.net[i]? = none := by
      rw [List.getElem?_eq_none_iff] at here ⊢
      rwa [← sim.net.length_eq]
    exact ⟨s, by rw [System.deliver, none], sim⟩
  | some signal =>
    rw [here] at run
    obtain ⟨packet, there, means⟩ := sim.means here
    have taken : c.Sim { s with net := s.net.eraseIdx i } { a with net := a.net.eraseIdx i } :=
      ⟨sim.seat, sim.desk, sim.net_eraseIdx i⟩
    rw [System.deliver, there]
    have known := wf.known signal (List.mem_of_getElem? here)
    cases signal with
    | worker e =>
      cases run
      exact taken.worker v known means (wf.seat e known).flags
    | request e idx => exact taken.request known.2 means run
    | response e idx version => exact taken.response v known.1 known.2 means run

/-! ## Runs -/

section Runs

variable (c)

/-- All parts have the parameter at the version `put`, with which its slices were put, and nothing is under way. -/
structure Start (put : Int) (s : System α) : Prop where
  valid : c.Valid
  positive : ∀ e ∈ c.parts, 1 ≤ e.numLocal
  net : s.net = []
  seat : ∀ e ∈ c.parts, ∃ entry locals, (s.procs e.proc).workerShard (hash e.grp c.owner) = some entry ∧
    (locals.length : Int) = e.numLocal ∧ (∀ l ∈ locals, l < put) ∧
    c.Sits e entry ⟨put, locals, 0, List.replicate c.sizes.length false, 0⟩
  desk : ∀ idx < c.sizes.length, ∃ entry, (s.procs (c.home idx)).serverShard (c.slice idx) = some entry ∧
    c.Keeps idx entry ⟨put, 0, []⟩ ((s.servers (c.dstGrp, c.server idx)).bufferRequests (c.slice idx))

variable {c}

/-- The control flow starts with the processes. -/
theorem Start.sim {put : Int} (start : c.Start put s) : ∃ a : Control, a.Initial c.plan put ∧ c.Sim s a := by
  have : Nonempty (ParamEntry α) := ⟨.empty⟩
  choose! entry locals found length before sits using start.seat
  refine ⟨⟨fun e => ⟨put, locals e, 0, List.replicate c.sizes.length false, 0⟩, fun _ => ⟨put, 0, []⟩, []⟩,
    ⟨rfl, fun _ _ => rfl, length, before, fun _ _ => rfl, fun _ _ => rfl, fun _ _ => rfl, fun _ _ => rfl⟩, ?_⟩
  refine ⟨fun e mem => ⟨entry e, found e mem, sits e mem⟩, start.desk, ?_⟩
  rw [start.net]
  exact .nil

variable [Field α]

variable (c) in
/-- One step of the workers, stubs and servers. -/
def step (s : System α) : Action → Run (System α)
  | .update e share step => .ok (if e ∈ c.parts then s.update e.proc e.grp c.owner share step else s)
  | .deliver i => s.deliver c.site i

theorem Sim.step {a' : Control} (v : c.Valid) (sim : c.Sim s a) (wf : a.Wf c.plan) {action : Action}
    (run : a.act c.plan action = some a') : ∃ s', c.step s action = .ok s' ∧ c.Sim s' a' := by
  cases action with
  | update e share step =>
    refine ⟨_, rfl, ?_⟩
    cases run
    by_cases mem : e ∈ c.parts
    · simpa [mem] using sim.update v mem share step
    · simpa [mem] using sim
  | deliver i => exact sim.deliver v wf i run

end Runs

/-- A share of a parameter with two slices, put with version 0. -/
def pairParam : Param ℚ where
  localVersion := -1
  sliceStart := 0
  numSlices := 2
  sliceOffset := [0, 1]
  sliceSize := [1, 1]
  pendingPut := [false, false]
  pendingGet := [false, false]
  pendingUpdate := [false, false]
  numPendingRequests := 0
  data := ⟨2, 0, ⟨0, 0⟩⟩
  grad := ⟨2, 0, ⟨1, 0⟩⟩
  history := []
  proto := ⟨0, 0, 1, 1⟩

end Rounds
end Singa
