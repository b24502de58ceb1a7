import Singa.Base.Events
import Singa.Trainer.Placement
import Singa.Trainer.Stub

/-!
# `trainer/trainer.cc`: the loop of the stub

`Trainer::Run` takes the messages for its process one after the other, and when
none comes for a while it reminds its servers in turn to synchronise. `nservers`
starts at the number of servers of the process and goes down with every stop
message from a server; the turn is taken modulo `nservers`. What `bandwidth`
measures is part of an event.
-/

namespace Singa
set_option autoImplicit false

open Memory

/-- What `Run` is given, and reads from `Cluster`. -/
structure StubConf where
  conf : ClusterConf
  pid : Nat
  maxBandwidth : Int
  trainer : Trainer
  workers : List Thread
  servers : List Thread
  nthreads : Nat
  createdWorkers : conf.createWorkers 1 pid = .ok workers
  createdServers : conf.createServers nthreads pid = .ok servers

/-- The variables of `Run`, the shards and parameters its handlers work on, and what was handed to its sockets.
`running` is false after the `break`. -/
structure StubState (α : Type) where
  nworkers : Int
  nservers : Int
  syncServerId : Int
  queue : List (Msg α)
  mem : Mem α
  shard : Trainer.Shard α
  sent : List (Msg α)
  running : Bool

/-- A pass of the loop: the poll expires, a message arrives, or one that is queued is taken. -/
inductive StubEvent (α : Type) where
  | timeout (bandwidth : Int)
  | arrive (msg : Msg α) (bandwidth : Int)
  | next (bandwidth : Int)

namespace StubConf

variable {α : Type} (k : StubConf)

def init (mem : Mem α) (shard : Trainer.Shard α) : StubState α :=
  ⟨k.workers.length, k.servers.length, 0, [], mem, shard, [], true⟩

/-- `Trainer::GenSyncReminderMsg`. -/
def genSyncReminderMsg (server : Int) : Run (Msg α) :=
  if server < 0 then .error .range
  else match k.servers[server.toNat]? with
    | none => .error .range
    | some s => .ok { src := ⟨-1, -1, .kStub⟩, dst := ⟨s.grpId, s.id, .kServer⟩, type := .kSyncReminder }

/-- The poll expired. -/
def remind (s : StubState α) (bandwidth : Int) : Run (StubState α) :=
  if 1 < k.conf.nserverGroups ∧ bandwidth < k.maxBandwidth then do
    let msg ← k.genSyncReminderMsg s.syncServerId
    if s.nservers = 0 then .error .divZero
    else .ok { s with sent := s.sent ++ [msg], syncServerId := (s.syncServerId + 1).tmod s.nservers }
  else .ok s

/-- `Cluster::ProcsIDOf`; no worker or server has a negative group or id. -/
def procsIdOf (a : Addr) : Run Int :=
  if a.grp < 0 ∨ a.idOrProc < 0 then .error .missing
  else match k.conf.procsIdOf a.grp.toNat a.idOrProc.toNat a.type with
    | none => .error .missing
    | some pid => .ok pid

/-- The process that a message goes to. -/
def dstProcs (a : Addr) : Run Int := if a.type = .kStub then .ok a.idOrProc else k.procsIdOf a

/-- A message that is not for the stub goes to another process or to a thread of this one. -/
def forwardMsg (s : StubState α) (msg : Msg α) (bandwidth : Int) : Run (StubState α) := do
  let dstProcs ← k.dstProcs msg.dst
  if dstProcs ≠ k.pid ∨ msg.type ≠ .kSyncRequest then .ok { s with sent := s.sent ++ [msg] }
  else .ok { s with sent := s.sent ++ [msg.addFrame (.format [.int (k.maxBandwidth - bandwidth)])] }

/-- The counters after a stop message. -/
def countStop (s : StubState α) (msg : Msg α) : StubState α :=
  match msg.src.type with
  | .kServer => { s with nservers := s.nservers - 1 }
  | .kWorkerParam => { s with nworkers := s.nworkers - 1 }
  | _ => s

/-- Whether a message is for this stub. -/
def isForStub (msg : Msg α) : Bool :=
  msg.dst.type = .kStub ∧ (msg.dst.idOrProc = k.pid ∨ msg.dst.grp = -1)

variable [Add α] [Div α] [IntCast α]

/-- The front message of the queue. -/
def dispatch (s : StubState α) (msg : Msg α) (bandwidth : Int) : Run (StubState α) :=
  if k.isForStub msg then
    match msg.type with
    | .kConnect | .kMetric => .ok s
    | .kStop =>
      let s := countStop s msg
      .ok { s with running := ¬ (s.nworkers = 0 ∧ s.nservers = 0) }
    | _ =>
      if 0 < k.conf.nserverGroups then do
        let (mem, shard, out) ← k.trainer.handleLocalMsg s.mem s.shard msg
        .ok { s with mem := mem, shard := shard, queue := s.queue ++ out }
      else .ok s
  else k.forwardMsg s msg bandwidth

/-- A pass of the loop; the poll is only waited for with an empty queue. An abort ends the run. -/
def step (s : StubState α) (e : StubEvent α) : Option (StubState α) :=
  match s.running, s.queue, e with
  | true, [], .timeout bandwidth => (k.remind s bandwidth).toOption
  | true, [], .arrive msg bandwidth => (k.dispatch s msg bandwidth).toOption
  | true, msg :: rest, .next bandwidth => (k.dispatch { s with queue := rest } msg bandwidth).toOption
  | _, _, _ => none

/-- The reminder branch runs after the events `done`, in the state `s`. -/
def Reminds (mem : Mem α) (shard : Trainer.Shard α) (events done : List (StubEvent α)) (s : StubState α) : Prop :=
  ∃ bandwidth, done ++ [.timeout bandwidth] <+: events ∧ done.foldlM k.step (k.init mem shard) = some s ∧
    s.running = true ∧ s.queue = [] ∧ 1 < k.conf.nserverGroups ∧ bandwidth < k.maxBandwidth

/-- There is a server to remind, and one to take the turn modulo. -/
def Safe (s : StubState α) : Prop :=
  0 ≤ s.syncServerId ∧ s.syncServerId < k.servers.length ∧ s.nservers ≠ 0

/-- The event is a stop message of a server. -/
def isServerStop (e : StubEvent α) : Bool :=
  match e with
  | .arrive msg _ => k.isForStub msg ∧ msg.type = .kStop ∧ msg.src.type = .kServer
  | .timeout _ | .next _ => false

/-- How many servers have said that they stop. -/
def serverStops (done : List (StubEvent α)) : Nat := done.countP k.isServerStop

end StubConf

/-! ## What the handlers queue -/

/-- Every message is for a server. -/
def ToServers {α : Type} (out : List (Msg α)) : Prop := ∀ msg ∈ out, msg.dst.type = .kServer

namespace Trainer

variable {α : Type} {t : Trainer} {m m' : Mem α} {entry entry' : ParamEntry α} {msg : Msg α} {out : List (Msg α)}

theorem genMsgs_toServers {type : MsgType} {version : Int}
    (h : t.genMsgs type version m entry msg = .ok (entry', out)) : ToServers out := by
  unfold genMsgs at h
  dsimp only at h
  split at h
  · cases h
  · obtain ⟨p, -, h⟩ := Run.do_ok.mp h
    obtain ⟨⟨last, ret⟩, loop, h⟩ := Run.do_ok.mp h
    obtain ⟨-, rfl⟩ := Prod.mk.inj (Except.ok.inj h)
    refine Run.foldlM_inv (fun _ (s : Param α × List (Msg α)) => ToServers s.2) ?_ ?_ loop
    · intro done idx s s' inv pass
      unfold genMsgsAt at pass
      dsimp only at pass
      split at pass
      · cases pass
      · obtain ⟨⟨p, made⟩, -, pass⟩ := Run.do_ok.mp pass
        obtain rfl := Except.ok.inj pass
        intro sent mem
        rcases List.mem_append.mp mem with mem | mem
        · exact inv sent mem
        · rw [List.mem_singleton.mp mem]
    · exact List.forall_mem_nil _

theorem handleGet_toServers (h : t.handleGet m entry msg = .ok (entry', out)) : ToServers out := by
  unfold handleGet at h
  dsimp only at h
  split at h
  · exact genMsgs_toServers h
  · obtain ⟨-, rfl⟩ := Prod.mk.inj (Except.ok.inj h)
    exact List.forall_mem_nil _

variable [Add α] [Div α] [IntCast α]

theorem handleUpdate_toServers (h : t.handleUpdate m entry msg = .ok (m', entry', out)) : ToServers out := by
  unfold handleUpdate at h
  dsimp only at h
  split at h
  · -- with and without an average
    split at h
    all_goals
      obtain ⟨m, -, h⟩ := Run.do_ok.mp h
      obtain ⟨⟨entry, ret⟩, gen, h⟩ := Run.do_ok.mp h
      obtain ⟨-, h⟩ := Prod.mk.inj (Except.ok.inj h)
      obtain ⟨-, rfl⟩ := Prod.mk.inj h
      exact genMsgs_toServers gen
  · obtain ⟨-, h⟩ := Prod.mk.inj (Except.ok.inj h)
    obtain ⟨-, rfl⟩ := Prod.mk.inj h
    exact List.forall_mem_nil _

/-- **The handlers of the stub** queue messages for servers only. -/
theorem handleLocalMsg_toServers {shard shard' : Shard α}
    (h : t.handleLocalMsg m shard msg = .ok (m', shard', out)) : ToServers out := by
  have nothing : ToServers ([] : List (Msg α)) := List.forall_mem_nil _
  unfold handleLocalMsg at h
  dsimp only at h
  split at h
  case h_6 =>
    obtain ⟨-, h⟩ := Prod.mk.inj (Except.ok.inj h)
    obtain ⟨-, rfl⟩ := Prod.mk.inj h
    exact nothing
  all_goals
    split at h
    · cases h
    · obtain ⟨⟨mem, after, ret⟩, handled, h⟩ := Run.do_ok.mp h
      obtain ⟨-, h⟩ := Prod.mk.inj (Except.ok.inj h)
      obtain ⟨-, rfl⟩ := Prod.mk.inj h
      first
      | exact handleUpdate_toServers handled
      | obtain ⟨⟨a, b⟩, made, handled⟩ := Run.do_ok.mp handled
        obtain ⟨-, handled⟩ := Prod.mk.inj (Except.ok.inj handled)
        obtain ⟨-, rfl⟩ := Prod.mk.inj handled
        first
        | exact nothing
        | exact handleGet_toServers made
        | exact genMsgs_toServers made

end Trainer

/-! ## Passes -/

namespace StubConf

variable {α : Type} {k : StubConf} {s s' : StubState α} {msg : Msg α} {bandwidth : Int}

/-- There is such a server. -/
theorem genSyncReminderMsg_ok (server : Int) :
    (∃ msg : Msg α, k.genSyncReminderMsg server = .ok msg) ↔ 0 ≤ server ∧ server < k.servers.length := by
  unfold genSyncReminderMsg
  by_cases negative : server < 0
  · rw [if_pos negative]
    constructor
    · rintro ⟨msg, h⟩
      cases h
    · omega
  · rw [if_neg negative]
    cases found : k.servers[server.toNat]? with
    | none =>
      have out := List.getElem?_eq_none_iff.mp found
      constructor
      · rintro ⟨msg, h⟩
        cases h
      · omega
    | some thread =>
      have inside := (List.getElem?_eq_some_iff.mp found).1
      exact ⟨fun _ => by omega, fun _ => ⟨_, rfl⟩⟩

/-- **The reminder branch** does not abort exactly when it is safe. -/
theorem remind_ok (turn : 1 < k.conf.nserverGroups ∧ bandwidth < k.maxBandwidth) :
    (∃ s', k.remind s bandwidth = .ok s') ↔ k.Safe s := by
  unfold remind Safe
  rw [if_pos turn]
  constructor
  · rintro ⟨s', h⟩
    obtain ⟨msg, made, h⟩ := Run.do_ok.mp h
    obtain ⟨low, high⟩ := (genSyncReminderMsg_ok s.syncServerId).mp ⟨msg, made⟩
    refine ⟨low, high, fun zero => ?_⟩
    rw [if_pos zero] at h
    cases h
  · rintro ⟨low, high, some_server⟩
    obtain ⟨msg, made⟩ := (genSyncReminderMsg_ok s.syncServerId).mpr ⟨low, high⟩
    exact ⟨_, Run.do_ok.mpr ⟨msg, made, if_neg some_server⟩⟩

/-- A pass at a timeout keeps `nservers` and, with servers left, passes the turn on. -/
theorem remind_spec (h : k.remind s bandwidth = .ok s') :
    s'.nservers = s.nservers ∧ s'.queue = s.queue ∧ (s'.syncServerId = s.syncServerId ∨
      (1 < k.conf.nserverGroups ∧ bandwidth < k.maxBandwidth ∧
        s'.syncServerId = (s.syncServerId + 1).tmod s.nservers)) := by
  unfold remind at h
  split at h
  · rename_i turn
    obtain ⟨msg, -, h⟩ := Run.do_ok.mp h
    split at h
    · cases h
    · obtain rfl := Except.ok.inj h
      exact ⟨rfl, rfl, .inr ⟨turn.1, turn.2, rfl⟩⟩
  · obtain rfl := Except.ok.inj h
    exact ⟨rfl, rfl, .inl rfl⟩

theorem forwardMsg_spec (h : k.forwardMsg s msg bandwidth = .ok s') :
    s'.nservers = s.nservers ∧ s'.syncServerId = s.syncServerId ∧ s'.queue = s.queue := by
  unfold forwardMsg at h
  obtain ⟨pid, -, h⟩ := Run.do_ok.mp h
  split at h
  all_goals
    obtain rfl := Except.ok.inj h
    exact ⟨rfl, rfl, rfl⟩

theorem countStop_spec (s : StubState α) (msg : Msg α) :
    (countStop s msg).nservers = s.nservers - (if msg.src.type = .kServer then 1 else 0) ∧
      (countStop s msg).syncServerId = s.syncServerId ∧ (countStop s msg).queue = s.queue := by
  unfold countStop
  cases msg.src.type <;> simp

theorem serverStops_concat (done : List (StubEvent α)) (e : StubEvent α) :
    k.serverStops (done ++ [e]) = k.serverStops done + if k.isServerStop e then 1 else 0 := by
  rw [serverStops, List.countP_append, List.countP_singleton, serverStops]

variable [Add α] [Div α] [IntCast α]

/-- What handling one message does to the counters. -/
theorem dispatch_spec (h : k.dispatch s msg bandwidth = .ok s') :
    s'.nservers = s.nservers - (if k.isForStub msg ∧ msg.type = .kStop ∧ msg.src.type = .kServer then 1 else 0) ∧
      s'.syncServerId = s.syncServerId ∧ ∃ out, ToServers out ∧ s'.queue = s.queue ++ out := by
  have nothing : ∃ out : List (Msg α), ToServers out ∧ s.queue = s.queue ++ out :=
    ⟨[], List.forall_mem_nil _, (List.append_nil _).symm⟩
  unfold dispatch at h
  by_cases here : k.isForStub msg = true
  · rw [if_pos here] at h
    by_cases stop : msg.type = .kStop
    · rw [stop] at h
      dsimp only at h
      obtain rfl := Except.ok.inj h
      obtain ⟨servers, turn, queue⟩ := countStop_spec s msg
      refine ⟨?_, turn, queue ▸ nothing⟩
      simpa [here, stop] using servers
    · rw [if_neg fun both => stop both.2.1, sub_zero]
      split at h
      case h_3 => exact absurd ‹_› stop
      case h_4 =>
        split at h
        · obtain ⟨⟨mem, shard, out⟩, handled, h⟩ := Run.do_ok.mp h
          obtain rfl := Except.ok.inj h
          exact ⟨rfl, rfl, out, Trainer.handleLocalMsg_toServers handled, rfl⟩
        · obtain rfl := Except.ok.inj h
          exact ⟨rfl, rfl, nothing⟩
      all_goals
        obtain rfl := Except.ok.inj h
        exact ⟨rfl, rfl, nothing⟩
  · rw [if_neg here] at h
    rw [if_neg fun both => here both.1, sub_zero]
    obtain ⟨servers, turn, queue⟩ := forwardMsg_spec h
    exact ⟨servers, turn, queue ▸ nothing⟩

/-- What a pass is. -/
theorem step_cases {e : StubEvent α} (h : k.step s e = some s') : s.running = true ∧
    ((∃ bandwidth, e = .timeout bandwidth ∧ s.queue = [] ∧ k.remind s bandwidth = .ok s') ∨
      (∃ msg bandwidth, e = .arrive msg bandwidth ∧ s.queue = [] ∧ k.dispatch s msg bandwidth = .ok s') ∨
      ∃ msg rest bandwidth, e = .next bandwidth ∧ s.queue = msg :: rest ∧
        k.dispatch { s with queue := rest } msg bandwidth = .ok s') := by
  have ok {r : Run (StubState α)} (h : r.toOption = some s') : r = .ok s' := by
    cases r with
    | ok after => exact congrArg Except.ok (Option.some.inj h)
    | error abort => cases h
  unfold step at h
  split at h
  · exact ⟨‹_›, .inl ⟨_, rfl, ‹_›, ok h⟩⟩
  · exact ⟨‹_›, .inr (.inl ⟨_, _, rfl, ‹_›, ok h⟩)⟩
  · exact ⟨‹_›, .inr (.inr ⟨_, _, _, rfl, ‹_›, ok h⟩)⟩
  · cases h

/-! ## Runs -/

variable {mem : Mem α} {shard : Trainer.Shard α} {events done : List (StubEvent α)}

/-- `nservers` counts the servers that have not said that they stop, and nothing that is queued will. -/
structure Counts (k : StubConf) (done : List (StubEvent α)) (s : StubState α) : Prop where
  nservers : s.nservers = k.servers.length - k.serverStops done
  queue : ToServers s.queue

theorem Counts.step (counts : Counts k done s) {e : StubEvent α} (h : k.step s e = some s') :
    Counts k (done ++ [e]) s' := by
  have before := counts.nservers
  obtain ⟨-, ⟨bandwidth, rfl, empty, h⟩ | ⟨msg, bandwidth, rfl, empty, h⟩ | ⟨msg, rest, bandwidth, rfl, here, h⟩⟩ :=
    step_cases h
  · obtain ⟨servers, queue, -⟩ := remind_spec h
    constructor
    · rw [servers, before, serverStops_concat, if_neg (by simp [isServerStop]), Nat.add_zero]
    · rw [queue]
      exact counts.queue
  · obtain ⟨servers, -, out, toServers, queue⟩ := dispatch_spec h
    constructor
    · rw [servers, before, serverStops_concat]
      by_cases stop : k.isForStub msg ∧ msg.type = .kStop ∧ msg.src.type = .kServer
      · rw [if_pos stop, if_pos (by simpa [isServerStop] using stop)]
        omega
      · rw [if_neg stop, if_neg (by simpa [isServerStop] using stop)]
        omega
    · rw [queue, empty]
      exact toServers
  · obtain ⟨servers, -, out, toServers, queue⟩ := dispatch_spec h
    -- what was queued is for a server
    have other : ¬ (k.isForStub msg ∧ msg.type = .kStop ∧ msg.src.type = .kServer) := by
      rintro ⟨forStub, -⟩
      have kind := counts.queue msg (here ▸ List.mem_cons_self)
      simp [isForStub, kind] at forStub
    constructor
    · rw [servers, if_neg other, sub_zero, serverStops_concat, if_neg (by simp [isServerStop]), Nat.add_zero]
      exact before
    · rw [queue]
      intro m hm
      rcases List.mem_append.mp hm with hm | hm
      · exact counts.queue m (here ▸ List.mem_cons_of_mem msg hm)
      · exact toServers m hm

theorem counts_run (part : done <+: events) (h : done.foldlM k.step (k.init mem shard) = some s) : Counts k done s := by
  refine Events.prefix_inv (Counts k) ⟨?_, ?_⟩ (fun _ _ _ _ _ _ counts pass => counts.step pass) part h
  · simp [init, serverStops]
  · exact List.forall_mem_nil _

/-- The server whose turn it is. -/
structure Turn (k : StubConf) (s : StubState α) : Prop where
  low : 0 ≤ s.syncServerId
  high : 0 < k.servers.length → s.syncServerId < k.servers.length

/-- While reminders only run with a server left, the turn stays within the servers. -/
theorem turn_run (left : ∀ done s, k.Reminds mem shard events done s → k.serverStops done < k.servers.length)
    (part : done <+: events) (h : done.foldlM k.step (k.init mem shard) = some s) : Turn k s := by
  refine Events.prefix_inv (fun _ => Turn k) ⟨le_rfl, fun some => by simpa [init] using some⟩ ?_ part h
  intro done s e s' part reach turn pass
  obtain ⟨running, ⟨bandwidth, rfl, empty, pass⟩ | ⟨msg, bandwidth, rfl, -, pass⟩ | ⟨msg, rest, bandwidth, rfl, -, pass⟩⟩ :=
    step_cases pass
  · obtain ⟨-, -, same | ⟨groups, slow, next⟩⟩ := remind_spec pass
    · exact ⟨same ▸ turn.low, same ▸ turn.high⟩
    · have fewer := left done s ⟨bandwidth, part, reach, running, empty, groups, slow⟩
      have counted := (counts_run ((List.prefix_append done _).trans part) reach).nservers
      have low := turn.low
      have nonneg : 0 ≤ (s.syncServerId + 1).tmod s.nservers := Int.tmod_nonneg _ (by omega)
      have below : (s.syncServerId + 1).tmod s.nservers < s.nservers := Int.tmod_lt_of_pos _ (by omega)
      exact ⟨by omega, fun _ => by omega⟩
  · obtain ⟨-, same, -⟩ := dispatch_spec pass
    exact ⟨same ▸ turn.low, same ▸ turn.high⟩
  · obtain ⟨-, same, -⟩ := dispatch_spec pass
    exact ⟨same ▸ turn.low, same ▸ turn.high⟩

/-- **Reminders**: the server whose turn it is is there, and so is one to count the turn modulo, if the reminder
branch runs only while fewer servers than the process has have said that they stop; and only then, if each says so
at most once. -/
theorem reminders_safe_iff (k : StubConf) (mem : Mem α) (shard : Trainer.Shard α) (events : List (StubEvent α)) :
    ((∀ done s, k.Reminds mem shard events done s → k.serverStops done < k.servers.length) →
      ∀ done s, k.Reminds mem shard events done s → k.Safe s) ∧
    (k.serverStops events ≤ k.servers.length → (∀ done s, k.Reminds mem shard events done s → k.Safe s) →
      ∀ done s, k.Reminds mem shard events done s → k.serverStops done < k.servers.length) := by
  constructor
  · intro left done s reminds
    have fewer := left done s reminds
    obtain ⟨bandwidth, part, reach, -⟩ := reminds
    have before := (List.prefix_append done _).trans part
    have turn := turn_run left before reach
    have counted := (counts_run before reach).nservers
    exact ⟨turn.low, turn.high (by omega), by omega⟩
  · intro once safe done s reminds
    have some_left := (safe done s reminds).2.2
    obtain ⟨bandwidth, part, reach, -⟩ := reminds
    have before := (List.prefix_append done _).trans part
    have counted := (counts_run before reach).nservers
    have fewer : k.serverStops done ≤ k.serverStops events := before.sublist.countP_le
    omega

end StubConf

/-- Two processes with a worker each and the two servers of a group. -/
def twoServersEach : ClusterConf where
  nworkerGroups := 2
  nserverGroups := 2
  nworkersPerGroup := 1
  nserversPerGroup := 2
  nworkersPerProcs := 1
  nserversPerProcs := 2
  serverWorkerSeparate := false
  shareMemory := false
  workersPerGroup_pos := Nat.one_pos
  serversPerGroup_pos := Nat.two_pos
  workersPerProcs_pos := Nat.one_pos
  serversPerProcs_pos := Nat.two_pos

/-- The stub of the first of them. -/
def serverStub : StubConf where
  conf := twoServersEach
  pid := 0
  maxBandwidth := 100
  trainer := ⟨⟨twoServersEach.toClusterProto, fun _ _ => 0⟩, 0, []⟩
  workers := [⟨1, 0, 0⟩]
  servers := [⟨2, 0, 0⟩, ⟨3, 0, 1⟩]
  nthreads := 2
  createdWorkers := by rfl
  createdServers := by rfl

/-- What the second server sends when it stops. -/
def stopMsg : Msg Int := { src := ⟨0, 1, .kServer⟩, dst := ⟨-1, -1, .kStub⟩, type := .kStop }

namespace StubConf

/-- Both servers are reminded, one of them stops, and the first one is reminded again. -/
theorem serverStub_safe : ∃ s, serverStub.Reminds ⟨fun _ _ => 0, 0⟩ (fun _ => none)
      [.timeout 0, .timeout 0, .arrive stopMsg 0, .timeout 0] [.timeout 0, .timeout 0, .arrive stopMsg 0] s ∧
    s.sent.map Msg.dst = [⟨0, 0, .kServer⟩, ⟨0, 1, .kServer⟩] ∧ s.nservers = 1 ∧ serverStub.Safe s := by
  let events : List (StubEvent Int) := [.timeout 0, .timeout 0, .arrive stopMsg 0, .timeout 0]
  have fewer : ∀ done s, serverStub.Reminds ⟨fun _ _ => 0, 0⟩ (fun _ => none) events done s →
      serverStub.serverStops done < serverStub.servers.length := by
    intro done s reminds
    obtain ⟨bandwidth, part, -⟩ := reminds
    have most : serverStub.serverStops done ≤ serverStub.serverStops events :=
      ((List.prefix_append done _).trans part).sublist.countP_le
    exact lt_of_le_of_lt most (by decide)
  have reminds : serverStub.Reminds ⟨fun _ _ => 0, 0⟩ (fun _ => none) events
      [.timeout 0, .timeout 0, .arrive stopMsg 0] _ := ⟨0, List.prefix_rfl, rfl, rfl, rfl, by decide, by decide⟩
  exact ⟨_, reminds, rfl, rfl, (reminders_safe_iff serverStub _ _ events).1 fewer _ _ reminds⟩

end StubConf

/-- One worker and two servers of two groups, each in a process of its own. -/
def threeProcesses : ClusterConf where
  nworkerGroups := 1
  nserverGroups := 2
  nworkersPerGroup := 1
  nserversPerGroup := 1
  nworkersPerProcs := 1
  nserversPerProcs := 1
  serverWorkerSeparate := true
  shareMemory := false
  workersPerGroup_pos := Nat.one_pos
  serversPerGroup_pos := Nat.one_pos
  workersPerProcs_pos := Nat.one_pos
  serversPerProcs_pos := Nat.one_pos

/-- The stub of the worker's process. -/
def workerStub : StubConf where
  conf := threeProcesses
  pid := 0
  maxBandwidth := 100
  trainer := ⟨⟨threeProcesses.toClusterProto, fun _ _ => 1⟩, 0, []⟩
  workers := [⟨1, 0, 0⟩]
  servers := []
  nthreads := 2
  createdWorkers := by rfl
  createdServers := by rfl

namespace StubConf

/-- It has no server to remind. -/
theorem workerStub_not_safe : ¬ ∀ (k : StubConf) (mem : Mem Int) (shard : Trainer.Shard Int)
    (events done : List (StubEvent Int)) (s : StubState Int), k.Reminds mem shard events done s → k.Safe s := by
  intro safe
  let mem : Mem Int := ⟨fun _ _ => 0, 0⟩
  have reminds : workerStub.Reminds mem (fun _ => none) [.timeout 0] [] (workerStub.init mem fun _ => none) :=
    ⟨0, List.prefix_rfl, rfl, rfl, rfl, by decide, by decide⟩
  have high := (safe workerStub mem _ _ _ _ reminds).2.1
  exact absurd high (by decide)

end StubConf
end Singa
