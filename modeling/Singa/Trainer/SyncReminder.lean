import Singa.Trainer.GetVersion
import Singa.Trainer.StubLoop

/-!
# Reminders at the servers of a process

The servers of a process share one shard. `Server::Run` looks up the slice of a
message there before it looks at the type, and a reminder carries no slice: its
target is the default, slice 0. Where slice 0 is kept by another process the
reminder goes back to be queued again, whatever the server has to synchronise.
-/

namespace Singa
set_option autoImplicit false

open Memory Trainer

variable {α : Type}

namespace Host

variable {h h' : Host α} {msg : Msg α} {slice : Int} {entry : ParamEntry α} {out : List (Msg α)}

/-- The same slices are kept, and the same ones mastered. -/
structure SameSlices (h h' : Host α) : Prop where
  shard : ∀ s, h'.shard s = none ↔ h.shard s = none
  masterParams : h'.server.masterParams = h.server.masterParams

theorem SameSlices.refl (h : Host α) : SameSlices h h := ⟨fun _ => Iff.rfl, rfl⟩

/-- The entry of a slice that is kept is replaced. -/
theorem sameSlices_setEntry {mid : Host α} (shard : mid.shard = h.shard)
    (masters : mid.server.masterParams = h.server.masterParams) (found : h.shard slice ≠ none) :
    SameSlices h (mid.setEntry slice entry) := by
  refine ⟨fun s => ?_, masters⟩
  by_cases here : s = slice
  · subst here
    simp [setEntry, found]
  · simp [setEntry, here, shard]

theorem paramAt_found {r : ParamEntry α × Param α} (run : h.paramAt slice = .ok r) : h.shard slice ≠ none := by
  intro absent
  rw [paramAt, absent] at run
  cases run

theorem handleGet_slices {reply : Msg α} (run : h.handleGet msg = .ok (h', reply)) : SameSlices h h' := by
  obtain ⟨⟨entry, p⟩, here, run⟩ := Run.do_ok.mp run
  simp only at run
  split at run
  · cases run
    exact .refl h
  · obtain ⟨⟨m', q, moved⟩, -, run⟩ := Run.do_ok.mp run
    cases run
    exact sameSlices_setEntry rfl rfl (paramAt_found here)

theorem handleUpdate_slices [Add α] [Div α] [NatCast α] {env : Env α} (run : h.handleUpdate env msg = .ok (h', out)) :
    SameSlices h h' := by
  obtain ⟨entry, p, here, ⟨m', q, p', rs, -, -, -, -, rfl⟩ | ⟨numUpdate, -, rfl⟩⟩ := handleUpdate_cases run
  all_goals exact sameSlices_setEntry rfl rfl (paramAt_found here)

theorem handleSyncRequest_slices [Add α] [Sub α] {response : Option (Msg α)}
    (run : h.handleSyncRequest msg = .ok (h', response)) : SameSlices h h' := by
  obtain ⟨entry, p, tmp, here, -, ⟨-, rfl, -⟩ | ⟨-, cur, prev, rfl⟩⟩ := handleSyncRequest_cases run
  · exact sameSlices_setEntry rfl rfl (paramAt_found here)
  · exact ⟨fun _ => Iff.rfl, rfl⟩

theorem genSyncMsgs_slices {cluster : Cluster} (run : genSyncMsgs cluster h slice = .ok (h', out)) :
    SameSlices h h' ∧ ∀ r ∈ out, r.type = .kSyncRequest := by
  obtain ⟨⟨entry, p⟩, here, run⟩ := Run.do_ok.mp run
  simp only at run
  cases run
  refine ⟨?_, fun r mem => ?_⟩
  · split
    · exact .refl h
    · exact sameSlices_setEntry rfl rfl (paramAt_found here)
  · obtain ⟨i, -, rfl⟩ := List.mem_map.mp mem
    rfl

theorem handleSyncReminder_slices {cluster : Cluster} (run : h.handleSyncReminder cluster = .ok (h', out)) :
    SameSlices h h' ∧ ∀ r ∈ out, r.type = .kSyncRequest := by
  obtain ⟨rfl, rfl⟩ | ⟨slice, mid, syncEntry, gen, rfl⟩ := handleSyncReminder_cases run
  · exact ⟨.refl h', by simp⟩
  · obtain ⟨same, types⟩ := genSyncMsgs_slices gen
    exact ⟨⟨same.shard, same.masterParams⟩, types⟩

/-- **Which slices are kept and mastered after a message**: those from before, and the one that is put. -/
theorem receive_slices [Add α] [Sub α] [Div α] [NatCast α] [Zero α] [One α] {cluster : Cluster} {env : Env α}
    (run : h.receive cluster env msg = .ok (h', out)) :
    (∀ s, h'.shard s ≠ none ↔ h.shard s ≠ none ∨ msg.type = .kPut ∧ msg.sliceId = s) ∧
      ∀ s ∈ h'.server.masterParams, s ∈ h.server.masterParams ∨ msg.type = .kPut ∧ msg.sliceId = s := by
  have same (other : msg.type ≠ .kPut) (slices : SameSlices h h') :
      (∀ s, h'.shard s ≠ none ↔ h.shard s ≠ none ∨ msg.type = .kPut ∧ msg.sliceId = s) ∧
        ∀ s ∈ h'.server.masterParams, s ∈ h.server.masterParams ∨ msg.type = .kPut ∧ msg.sliceId = s := by
    refine ⟨fun s => ?_, fun s mem => .inl (slices.masterParams ▸ mem)⟩
    simp [other, slices.shard s]
  rw [receive] at run
  split at run
  · rename_i type
    obtain ⟨mid, put, run⟩ := Run.do_ok.mp run
    obtain ⟨mine, -, run⟩ := Run.do_ok.mp run
    obtain ⟨total, p, absent, shard, ⟨lastData, server⟩, -⟩ := handlePut_new put
    have masters : mid.server.masterParams = h.server.masterParams := by rw [server]
    have kept (s : Int) : mid.shard s ≠ none ↔ h.shard s ≠ none ∨ msg.type = .kPut ∧ msg.sliceId = s := by
      rw [shard]
      by_cases here : s = msg.sliceId
      · subst here
        simp [type]
      · simp [here, Ne.symm here]
    cases mine with
    | true =>
      cases run
      refine ⟨kept, fun s mem => ?_⟩
      rcases List.mem_append.mp mem with old | new
      · exact .inl (masters ▸ old)
      · exact .inr ⟨type, (List.mem_singleton.mp new).symm⟩
    | false =>
      cases run
      exact ⟨kept, fun s mem => .inl (masters ▸ mem)⟩
  · rename_i other
    split at run
    · cases run
      exact same other (.refl h)
    · split at run
      · exact same other (handleSyncReminder_slices run).1
      · obtain ⟨⟨mid, reply⟩, got, run⟩ := Run.do_ok.mp run
        cases run
        exact same other (handleGet_slices got)
      · exact same other (handleUpdate_slices run)
      · obtain ⟨⟨mid, response⟩, sync, run⟩ := Run.do_ok.mp run
        cases run
        exact same other (handleSyncRequest_slices sync)
      · cases run
        exact same other (.refl h)

/-- What a reminder finds at a server: every slice has one parameter, and those it masters are there. -/
structure Stocked (h : Host α) : Prop where
  single : ∀ s, h.shard s ≠ none → ∃ p, h.Held s p
  mastered : ∀ s ∈ h.server.masterParams, h.shard s ≠ none

/-- The reminder branch does not abort. -/
theorem Stocked.remind (stocked : h.Stocked) (cluster : Cluster) :
    ∃ h' out, h.handleSyncReminder cluster = .ok (h', out) := by
  rw [handleSyncReminder]
  split
  · exact ⟨h, [], rfl⟩
  · rename_i s here
    obtain ⟨p, held⟩ := stocked.single s (stocked.mastered s (List.mem_of_getElem? here))
    obtain ⟨entry, -, -, param⟩ := held.paramAt
    by_cases due : (cluster.proto.nserverGroups : Int) ≤ |p.localVersion - p.version|
    · have gen : ∃ r, genSyncMsgs cluster h s = .ok r := ⟨_, Run.do_ok.mpr ⟨_, param, rfl⟩⟩
      obtain ⟨⟨mid, ret⟩, gen⟩ := gen
      refine ⟨{ mid with server := { mid.server with
        syncEntry := (mid.server.syncEntry + 1) % mid.server.masterParams.length } }, ret,
        Run.do_ok.mpr ⟨_, param, ?_⟩⟩
      simp only [due, if_true]
      exact Run.do_ok.mpr ⟨_, gen, rfl⟩
    · exact ⟨h, [], Run.do_ok.mpr ⟨_, param, if_neg due⟩⟩

/-- The reminder branch takes the message, and it is not sent back. -/
def Consumed [Add α] [Sub α] [Div α] [NatCast α] [Zero α] [One α] (cluster : Cluster) (env : Env α) (h : Host α)
    (reminder : Msg α) : Prop :=
  ∃ h' out, h.receive cluster env reminder = .ok (h', out) ∧ h.handleSyncReminder cluster = .ok (h', out) ∧
    reminder ∉ out

/-- A message without a slice that is a reminder is consumed where slice 0 is kept. -/
theorem Stocked.consumed_iff [Add α] [Sub α] [Div α] [NatCast α] [Zero α] [One α] {cluster : Cluster} {env : Env α}
    (stocked : h.Stocked) (type : msg.type = .kSyncReminder) (target : msg.sliceId = 0) :
    h.Consumed cluster env msg ↔ h.shard 0 ≠ none := by
  constructor
  · rintro ⟨h', out, run, -, consumed⟩ absent
    have back : h.receive cluster env msg = .ok (h, [msg]) := by
      simp only [receive, type, target, absent]
    rw [back] at run
    cases run
    exact consumed List.mem_cons_self
  · intro found
    obtain ⟨entry, here⟩ := Option.ne_none_iff_exists'.mp found
    have branch : h.receive cluster env msg = h.handleSyncReminder cluster := by
      simp only [receive, type, target, here]
    obtain ⟨h', out, run⟩ := stocked.remind cluster
    refine ⟨h', out, branch.trans run, run, fun mem => ?_⟩
    have request := (handleSyncReminder_slices run).2 msg mem
    rw [type] at request
    cases request

end Host

/-! ## A process -/

/-- The memory and the shard of a process, and its servers. -/
structure ServerProcs (α : Type) where
  mem : Mem α
  shard : Trainer.Shard α
  servers : Nat → Server α

/-- A server receives a message, or another thread of the process writes to the memory. -/
inductive ProcsEvent (α : Type) where
  | receive (server : Nat) (msg : Msg α)
  | write (mem : Mem α)

namespace ServerProcs

/-- What the methods of a server work on. -/
def host (p : ServerProcs α) (server : Nat) : Host α := ⟨p.mem, p.shard, p.servers server⟩

/-- Nothing was put yet. -/
structure Initial (p : ServerProcs α) : Prop where
  shard : ∀ s, p.shard s = none
  masterParams : ∀ server, (p.servers server).masterParams = []

/-- The slice was put to a server of the process. -/
def Put (slice : Int) (events : List (ProcsEvent α)) : Prop :=
  ∃ server put, .receive server put ∈ events ∧ put.type = .kPut ∧ put.sliceId = slice

/-- The slices of the process after `events`. -/
structure Stock (events : List (ProcsEvent α)) (p : ServerProcs α) : Prop where
  put : ∀ s, p.shard s ≠ none ↔ Put s events
  stocked : ∀ server, (p.host server).Stocked

variable {p p' : ServerProcs α} {events : List (ProcsEvent α)}

theorem Initial.stock (initial : p.Initial) : p.Stock [] where
  put s := by simp [initial.shard s, Put]
  stocked server := ⟨fun s found => absurd (initial.shard s) found, by simp [host, initial.masterParams server]⟩

theorem put_snoc {slice : Int} {e : ProcsEvent α} : Put slice (events ++ [e]) ↔
    Put slice events ∨ ∃ server put, e = .receive server put ∧ put.type = .kPut ∧ put.sliceId = slice := by
  constructor
  · rintro ⟨server, put, mem, type, here⟩
    rcases List.mem_append.mp mem with old | new
    · exact .inl ⟨server, put, old, type, here⟩
    · exact .inr ⟨server, put, (List.mem_singleton.mp new).symm, type, here⟩
  · rintro (⟨server, put, mem, type, here⟩ | ⟨server, put, rfl, type, here⟩)
    · exact ⟨server, put, List.mem_append_left _ mem, type, here⟩
    · exact ⟨server, put, by simp, type, here⟩

/-- A reminder carries no slice. -/
theorem genSyncReminderMsg_target {k : StubConf} {turn : Int} {reminder : Msg α}
    (made : k.genSyncReminderMsg turn = .ok reminder) :
    reminder.hop.type = .kSyncReminder ∧ reminder.hop.sliceId = 0 := by
  unfold StubConf.genSyncReminderMsg at made
  split at made
  · cases made
  · split at made
    · cases made
    · cases made
      exact ⟨rfl, rfl⟩

variable [Add α] [Sub α] [Div α] [NatCast α] [Zero α] [One α] (cluster : Cluster) (env : Env α)

def step (p : ServerProcs α) : ProcsEvent α → Run (ServerProcs α)
  | .receive server msg => do
    let (h, _) ← (p.host server).receive cluster env msg
    .ok ⟨h.mem, h.shard, Function.update p.servers server h.server⟩
  | .write mem => .ok { p with mem }

variable {cluster env}

theorem Stock.step (stock : p.Stock events) {e : ProcsEvent α} (pass : p.step cluster env e = .ok p') :
    p'.Stock (events ++ [e]) := by
  cases e with
  | write mem =>
    cases pass
    refine ⟨fun s => ?_, fun server => ⟨(stock.stocked server).single, (stock.stocked server).mastered⟩⟩
    rw [put_snoc, ← stock.put s]
    simp
  | receive server msg =>
    obtain ⟨⟨h, out⟩, run, pass⟩ := Run.do_ok.mp pass
    cases pass
    obtain ⟨kept, masters⟩ := Host.receive_slices run
    refine ⟨fun s => ?_, fun other => ⟨fun s found => ?_, fun s mem => ?_⟩⟩
    · rw [put_snoc, ← stock.put s]
      refine (kept s).trans (or_congr Iff.rfl ⟨fun new => ⟨server, msg, rfl, new⟩, ?_⟩)
      rintro ⟨server', put, same, new⟩
      cases same
      exact new
    · by_cases old : p.shard s = none
      · obtain ⟨type, here⟩ := ((kept s).mp found).resolve_left (not_not_intro old)
        obtain ⟨q, held, -⟩ := Host.receive_put_held type here run
        exact ⟨q, held⟩
      · obtain ⟨q, held⟩ := (stock.stocked server).single s old
        obtain ⟨q', held', -⟩ := Host.receive_onward held run
        exact ⟨q', held'⟩
    · refine (kept s).mpr ?_
      by_cases here : other = server
      · subst here
        simp only [host, Function.update_self] at mem
        exact (masters s mem).imp_left ((stock.stocked other).mastered s)
      · simp only [host, Function.update_of_ne here] at mem
        exact .inl ((stock.stocked other).mastered s mem)

theorem run_stock (initial : p.Initial) (run : events.foldlM (step cluster env) p = .ok p') : p'.Stock events :=
  Run.foldlM_inv (fun done p => p.Stock done) (fun _ _ _ _ stock pass => stock.step pass) initial.stock run

/-- **Which reminders are consumed.** After any run of the servers of a process, a server consumes a reminder
exactly when slice 0 has been put to a server of the process. -/
theorem reminder_consumed_iff (initial : p.Initial) (run : events.foldlM (step cluster env) p = .ok p')
    {k : StubConf} {turn : Int} {reminder : Msg α} (made : k.genSyncReminderMsg turn = .ok reminder) (server : Nat) :
    (p'.host server).Consumed cluster env reminder.hop ↔ Put 0 events := by
  have stock := run_stock initial run
  obtain ⟨type, target⟩ := genSyncReminderMsg_target made
  rw [(stock.stocked server).consumed_iff type target, ← stock.put 0]
  rfl

/-! ## A group with its slices in two processes -/

/-- Two server groups of two servers, and one worker, each in a process of its own. -/
def fiveProcesses : ClusterConf where
  nworkerGroups := 1
  nserverGroups := 2
  nworkersPerGroup := 1
  nserversPerGroup := 2
  nworkersPerProcs := 1
  nserversPerProcs := 1
  serverWorkerSeparate := true
  shareMemory := false
  workersPerGroup_pos := Nat.one_pos
  serversPerGroup_pos := Nat.two_pos
  workersPerProcs_pos := Nat.one_pos
  serversPerProcs_pos := Nat.one_pos

/-- The stub beside the second server of group 0. -/
def secondStub : StubConf where
  conf := fiveProcesses
  pid := 2
  maxBandwidth := 100
  trainer := ⟨⟨fiveProcesses.toClusterProto, fun _ _ => 2⟩, 2, []⟩
  workers := []
  servers := [⟨1, 0, 1⟩]
  nthreads := 1
  createdWorkers := by rfl
  createdServers := by rfl

/-- That server before any put; group 0 masters both slices. -/
def second : ServerProcs ℚ where
  mem := ⟨fun _ _ => 0, 0⟩
  shard _ := none
  servers _ := ⟨0, 1, [0, 0], fun _ => [], fun _ => none, [], 0⟩

theorem second_initial : second.Initial := ⟨fun _ => rfl, fun _ => rfl⟩

def putOf (slice : Int) : Msg ℚ := { SyncSystem.put with sliceId := slice }

/-- Slice 0 is kept by the first server: the second one masters slice 1 and sends every reminder back. -/
theorem second_not_consumed : ∃ p' reminder,
    [ProcsEvent.receive 0 (putOf 1)].foldlM (step secondStub.trainer.cluster SyncSystem.adder) second = .ok p' ∧
      (p'.servers 0).masterParams = [1] ∧ secondStub.genSyncReminderMsg 0 = .ok reminder ∧
      ¬ (p'.host 0).Consumed secondStub.trainer.cluster SyncSystem.adder reminder.hop := by
  have masters : ([ProcsEvent.receive 0 (putOf 1)].foldlM (step secondStub.trainer.cluster SyncSystem.adder) second).map
      (fun p => (p.servers 0).masterParams) = .ok [1] := by decide +kernel
  generalize run : [ProcsEvent.receive 0 (putOf 1)].foldlM (step secondStub.trainer.cluster SyncSystem.adder) second =
    result at masters
  cases result with
  | error e => cases masters
  | ok p' =>
    obtain ⟨reminder, made⟩ : ∃ reminder : Msg ℚ, secondStub.genSyncReminderMsg 0 = .ok reminder := ⟨_, rfl⟩
    have stock := run_stock second_initial run
    obtain ⟨type, target⟩ := genSyncReminderMsg_target made
    refine ⟨p', reminder, rfl, Except.ok.inj masters, made, fun consumed => ?_⟩
    have found := ((stock.stocked 0).consumed_iff type target).mp consumed
    obtain ⟨server, put, mem, -, here⟩ := (stock.put 0).mp found
    cases List.mem_singleton.mp mem
    cases here

/-- With slice 0 beside it the reminder is consumed. -/
theorem both_consumed : ∃ p' reminder,
    [ProcsEvent.receive 0 (putOf 1), .receive 0 (putOf 0)].foldlM (step secondStub.trainer.cluster SyncSystem.adder)
        second = .ok p' ∧ secondStub.genSyncReminderMsg 0 = .ok reminder ∧
      (p'.host 0).Consumed secondStub.trainer.cluster SyncSystem.adder reminder.hop := by
  obtain ⟨p', run⟩ : ∃ p', [ProcsEvent.receive 0 (putOf 1), .receive 0 (putOf 0)].foldlM
      (step secondStub.trainer.cluster SyncSystem.adder) second = .ok p' := Run.exists_of_isOk (by decide +kernel)
  obtain ⟨reminder, made⟩ : ∃ reminder : Msg ℚ, secondStub.genSyncReminderMsg 0 = .ok reminder := ⟨_, rfl⟩
  refine ⟨p', reminder, run, made, (reminder_consumed_iff second_initial run made 0).mpr ?_⟩
  exact ⟨0, putOf 0, by simp, rfl, rfl⟩

end ServerProcs
end Singa
