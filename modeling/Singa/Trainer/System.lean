import Singa.Trainer.Server

/-!
# Processes and messages

All stubs and servers together. A process has one memory, the shard of its
workers' parameters and the shard of the slices its servers keep. A message is
handled by the stub or the server it is addressed to, at any time after it was
sent and in any order; the messages that the handler sends are in flight from
then on. A worker takes part by sending the update requests of its shares.
-/

namespace Singa
set_option autoImplicit false

open Memory Trainer

variable {α : Type}

structure Process (α : Type) where
  mem : Mem α
  workerShard : Shard α
  serverShard : Shard α

/-- A message in flight, with the process that will handle it. -/
structure Packet (α : Type) where
  proc : Int
  msg : Msg α

/-- What all processes agree on. -/
structure Site (α : Type) where
  cluster : Cluster
  slice2server : List Int
  env : Env α

/-- The stub of a process. -/
def Site.trainer (site : Site α) (proc : Int) : Trainer := ⟨site.cluster, proc, site.slice2server⟩

/-- Where the stubs forward a message to. -/
def Site.route (site : Site α) (msg : Msg α) : Packet α where
  proc := match msg.dst.type with
    | .kServer => site.cluster.procsIdOf msg.dst.grp msg.dst.idOrProc
    | _ => msg.dst.idOrProc
  msg := msg

structure System (α : Type) where
  procs : Int → Process α
  /-- The servers, by group and id. -/
  servers : Int × Int → Server α
  net : List (Packet α)

/-- The messages of a worker go to the stub of its own process. -/
def Worker.packet (proc grp id : Int) (type : MsgType) (paramId version : Int) : Packet α where
  proc := proc
  msg := { src := ⟨grp, id, .kWorkerParam⟩, dst := ⟨-1, -1, .kStub⟩, type := type, paramId := paramId
           trgtVersion := version }

namespace System

/-- What a server works on. -/
def host (s : System α) (proc : Int) (server : Int × Int) : Host α :=
  ⟨(s.procs proc).mem, (s.procs proc).serverShard, s.servers server⟩

/-- A server and its process after it handled a message. -/
def setHost (s : System α) (proc : Int) (server : Int × Int) (h : Host α) : System α :=
  { s with
    procs := Function.update s.procs proc { s.procs proc with mem := h.mem, serverShard := h.shard }
    servers := Function.update s.servers server h.server }

/-- A process after its stub handled a message. -/
def setStub (s : System α) (proc : Int) (mem : Mem α) (workerShard : Shard α) : System α :=
  { s with procs := Function.update s.procs proc { s.procs proc with mem, workerShard } }

def send (site : Site α) (s : System α) (out : List (Msg α)) : System α :=
  { s with net := s.net ++ out.map site.route }

@[simp] theorem send_nil (site : Site α) (s : System α) : s.send site [] = s := by
  simp [send]

theorem setStub_self (s : System α) (proc : Int) :
    s.setStub proc (s.procs proc).mem (s.procs proc).workerShard = s := by
  cases s
  simp [setStub]

/-- A message at the process it was routed to. -/
def handle [Field α] (site : Site α) (s : System α) (packet : Packet α) : Run (System α) :=
  let dst := packet.msg.dst
  match dst.type with
  | .kServer => do
    let server := (dst.grp, dst.idOrProc)
    let (h, out) ← (s.host packet.proc server).receive site.cluster site.env packet.msg.hop
    .ok ((s.setHost packet.proc server h).send site out)
  | _ => do
    let proc := s.procs packet.proc
    let (mem, workerShard, out) ← (site.trainer packet.proc).handleLocalMsg proc.mem proc.workerShard packet.msg.hop
    .ok ((s.setStub packet.proc mem workerShard).send site out)

section Handle

variable [Field α] {site : Site α} {s : System α} {packet : Packet α} {out : List (Msg α)}

theorem handle_server {h : Host α} (type : packet.msg.dst.type = .kServer)
    (run : (s.host packet.proc (packet.msg.dst.grp, packet.msg.dst.idOrProc)).receive site.cluster site.env
      packet.msg.hop = .ok (h, out)) : s.handle site packet =
      .ok ((s.setHost packet.proc (packet.msg.dst.grp, packet.msg.dst.idOrProc) h).send site out) := by
  simp only [handle, type]
  exact Run.do_ok.mpr ⟨_, run, rfl⟩

theorem handle_stub {mem : Mem α} {workerShard : Shard α} (type : packet.msg.dst.type = .kStub)
    (run : (site.trainer packet.proc).handleLocalMsg (s.procs packet.proc).mem (s.procs packet.proc).workerShard
      packet.msg.hop = .ok (mem, workerShard, out)) : s.handle site packet =
      .ok ((s.setStub packet.proc mem workerShard).send site out) := by
  simp only [handle, type]
  exact Run.do_ok.mpr ⟨_, run, rfl⟩

end Handle

/-- Any message in flight arrives. -/
def deliver [Field α] (site : Site α) (s : System α) (i : Nat) : Run (System α) :=
  match s.net[i]? with
  | none => .ok s
  | some packet => { s with net := s.net.eraseIdx i }.handle site packet

/-- `Worker::Update` for the share `share` of a parameter, once `Collect` has returned for it. -/
def update (s : System α) (proc grp paramId : Int) (share : Nat) (step : Int) : System α :=
  let key := hash grp paramId
  match (s.procs proc).workerShard key with
  | none => s
  | some entry =>
    match entry.shares[share]? with
    | none => s
    | some p =>
      if p.version ≤ p.localVersion then s
      else
        let entry := { entry with shares := entry.shares.set share (p.setLocalVersion p.version) }
        let s := s.setStub proc (s.procs proc).mem (Function.update (s.procs proc).workerShard key (some entry))
        { s with net := s.net ++ [Worker.packet proc grp share .kUpdate p.owner step] }

end System
end Singa
