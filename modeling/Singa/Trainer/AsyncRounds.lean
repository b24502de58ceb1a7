import Singa.Trainer.GradMean
import Singa.Trainer.Rounds

/-!
# Asynchronous updates of several groups

Groups of one share each update the same parameter, and every request fires at
once. `HandleUpdateResponse` stores the version of the slice whose response comes
last. Slices advance at different speeds under the updates of other groups, so
that version need not be above the one that `Worker::Update` recorded, and then
`Worker::Collect` never returns. It is above it as long as no request comes to a
slice that lags behind the recorded version.
-/

namespace Singa
set_option autoImplicit false

variable {α : Type}

namespace Control

/-- Every group has one share, and there are slices. -/
structure Async (plan : Plan) : Prop where
  single : ∀ e ∈ plan.parts, e.numLocal = 1
  total : plan.total = 1
  some : 0 < plan.slices

/-- No buffer holds a request, the responses under way are newer than the recorded version, and a round whose
responses were all parsed has moved the version. -/
structure Fresh (plan : Plan) (a : Control) : Prop where
  buffer : ∀ idx < plan.slices, (a.desks idx).buffer = []
  newer : ∀ e idx v, .response e idx v ∈ a.net → ∀ l ∈ (a.seats e).localVersions, l < v
  moved : ∀ e ∈ plan.parts, true ∉ (a.seats e).pending → (a.seats e).Open (a.net.count (.worker e))

/-- The message `i` is no request for a slice behind the version that its part recorded. -/
def Abreast (a : Control) : Action → Prop
  | .update _ _ _ => True
  | .deliver i => ∀ e idx, a.net[i]? = some (.request e idx) → ∀ l ∈ (a.seats e).localVersions, l ≤ (a.desks idx).version

variable {plan : Plan} {a a' : Control} {e : GroupPart} {idx : Nat}

theorem Fresh.perm (fresh : a.Fresh plan) {net : List Signal} (perm : a.net.Perm net) :
    ({ a with net } : Control).Fresh plan :=
  ⟨fresh.buffer, fun e idx v mem => fresh.newer e idx v (perm.mem_iff.mpr mem), fun e mem idle =>
    perm.count_eq (.worker e) ▸ fresh.moved e mem idle⟩

theorem Initial.fresh {put : Int} (initial : a.Initial plan put) : a.Fresh plan := by
  refine ⟨fun idx lt => by rw [initial.desk idx lt], ?_, fun e mem _ => ?_⟩
  · rw [initial.net]
    simp
  · rw [initial.net]
    exact initial.isOpen mem

theorem Fresh.update (fresh : a.Fresh plan) (wf : a.Wf plan) (mem : e ∈ plan.parts) (share : Nat) :
    (a.update e share).Fresh plan := by
  rw [Control.update]
  split
  · exact fresh
  · rename_i l here
    split
    · exact fresh
    · rename_i moved
      have ok := wf.seat e mem
      have free := ok.isOpen_of_lt (List.mem_of_getElem? here) (not_le.mp moved)
      refine ⟨fresh.buffer, fun e' idx v mem' => ?_, fun e' mem' idle => ?_⟩
      · have old : Signal.response e' idx v ∈ a.net := by simpa using mem'
        by_cases same : e' = e
        · subst same
          exact absurd old (wf.no_response free.pending idx v)
        · simpa [same] using fresh.newer e' idx v old
      · by_cases same : e' = e
        · subst same
          simpa using (ok.update here (not_le.mp moved)).isOpen_of_worker
        · simp only [send_seats, setSeat_seats, same, if_false] at idle ⊢
          simpa [Ne.symm same, List.count_singleton] using fresh.moved e' mem' idle

theorem Fresh.collect (async : Async plan) (fresh : (a.before (.worker e)).Fresh plan)
    (wf : (a.before (.worker e)).Wf plan) : (a.collect plan e).Fresh plan := by
  have mem : e ∈ plan.parts := wf.known _ List.mem_cons_self
  have nonneg := (wf.seat e mem).nonneg
  have full : e.numLocal ≤ (a.seats e).numUpdate + 1 := by
    rw [async.single e mem]
    exact Int.le_add_of_nonneg_left nonneg
  rw [Control.collect, if_pos full]
  refine ⟨fresh.buffer, fun e' idx v mem' => ?_, fun e' mem' idle => ?_⟩
  · have old : Signal.response e' idx v ∈ a.net := by simpa using mem'
    have newer := fresh.newer e' idx v (List.mem_cons_of_mem _ old)
    by_cases same : e' = e
    · subst same
      simpa [Seat.request] using newer
    · simpa [same] using newer
  · by_cases same : e' = e
    · subst same
      have pending := async.some
      simp [Seat.request, pending.ne'] at idle
    · simp only [send_seats, setSeat_seats, same, if_false] at idle ⊢
      have moved := fresh.moved e' mem' idle
      simpa [List.count_cons, Ne.symm same] using moved

/-- Every request fires. -/
theorem Fresh.serve (async : Async plan) (fresh : (a.before (.request e idx)).Fresh plan)
    (wf : (a.before (.request e idx)).Wf plan) (abreast : ∀ l ∈ (a.seats e).localVersions, l ≤ (a.desks idx).version) :
    ∃ a', a.serve plan e idx = some a' ∧ a'.Fresh plan := by
  obtain ⟨mem, lt⟩ : e ∈ plan.parts ∧ idx < plan.slices := wf.known _ List.mem_cons_self
  have none : (a.desks idx).buffer = [] := fresh.buffer idx lt
  have count : (a.desks idx).numUpdate = GroupPart.shares (a.desks idx).buffer := (wf.desk idx lt).count
  have all : (a.desks idx).numUpdate + e.numLocal = plan.total := by
    rw [count, none, async.single e mem, async.total]
    rfl
  refine ⟨_, by rw [Control.serve, if_pos all.ge, if_pos all], fun idx' lt' => ?_, fun e' idx' v mem' => ?_,
    fun e' mem' idle => ?_⟩
  · by_cases same : idx' = idx
    · simp [same]
    · simpa [same] using fresh.buffer idx' lt'
  · simp only [send_net, setDesk_net, none, List.nil_append, List.map_cons, List.map_nil, List.mem_append,
      List.mem_singleton, Signal.response.injEq] at mem'
    rcases mem' with old | ⟨rfl, rfl, rfl⟩
    · exact fresh.newer e' idx' v (List.mem_cons_of_mem _ old)
    · exact fun l here => Int.lt_add_one_of_le (abreast l here)
  · have moved := fresh.moved e' mem' idle
    simpa [none] using moved

/-- A response always finds its slice pending. -/
theorem Fresh.parse {version : Int} (fresh : (a.before (.response e idx version)).Fresh plan)
    (wf : (a.before (.response e idx version)).Wf plan) : ∃ a', a.parse plan e idx version = some a' ∧ a'.Fresh plan := by
  obtain ⟨mem, lt⟩ : e ∈ plan.parts ∧ idx < plan.slices := wf.known _ List.mem_cons_self
  have waits : (a.seats e).pending[idx]? = some true :=
    wf.pending mem lt List.mem_cons_self (by simp [Signal.concerns])
  have newer := fresh.newer e idx version List.mem_cons_self
  have ok : (a.seats e).Ok plan.slices e (a.net.count (.worker e)) := by
    simpa using wf.seat e mem
  refine ⟨_, if_pos waits, fresh.buffer, fun e' idx' v mem' => ?_, fun e' mem' idle => ?_⟩
  · have newer := fresh.newer e' idx' v (List.mem_cons_of_mem _ mem')
    by_cases same : e' = e
    · subst same
      simpa [Seat.parse] using newer
    · simpa [same] using newer
  · by_cases same : e' = e
    · subst same
      simp only [setSeat_seats, if_true, setSeat_net] at idle ⊢
      exact ok.parse_isOpen waits newer idle
    · simp only [setSeat_seats, same, if_false, setSeat_net] at idle ⊢
      have moved := fresh.moved e' mem' idle
      simpa using moved

/-- **A step that keeps abreast** can be taken, and leaves the responses fresh. -/
theorem Fresh.act (async : Async plan) (fresh : a.Fresh plan) (wf : a.Wf plan) {action : Action} (abreast : a.Abreast action) :
    ∃ a', a.act plan action = some a' ∧ a'.Fresh plan := by
  cases action with
  | update e share step =>
    refine ⟨_, rfl, ?_⟩
    split
    · exact fresh.update wf ‹_› share
    · exact fresh
  | deliver i =>
    rw [Control.act, Control.deliver]
    cases here : a.net[i]? with
    | none => exact ⟨a, rfl, fresh⟩
    | some signal =>
      obtain ⟨lt, get⟩ := List.getElem?_eq_some_iff.mp here
      have ready := wf.taken here
      have fresh' : (({ a with net := a.net.eraseIdx i } : Control).before signal).Fresh plan :=
        fresh.perm (get ▸ (List.getElem_cons_eraseIdx_perm lt).symm)
      cases signal with
      | worker e => exact ⟨_, rfl, fresh'.collect async ready⟩
      | request e idx => exact fresh'.serve async ready (abreast e idx here)
      | response e idx version => exact fresh'.parse ready

/-- A part whose round is over has moved on. -/
theorem Fresh.released (async : Async plan) (fresh : a.Fresh plan) (wf : a.Wf plan) (mem : e ∈ plan.parts)
    (idle : true ∉ (a.seats e).pending) (none : .worker e ∉ a.net) :
    ∀ l ∈ (a.seats e).localVersions, l < (a.seats e).version := by
  have free := fresh.moved e mem idle
  have ok := wf.seat e mem
  have nonneg := ok.nonneg
  have few := ok.few
  have count := free.count
  rw [List.count_eq_zero.mpr none] at count
  rw [async.single e mem] at few
  have zero : (a.seats e).localVersions.count (a.seats e).version = 0 := by omega
  intro l here
  refine lt_of_le_of_ne (free.le l here) ?_
  rintro rfl
  exact List.count_eq_zero.mp zero here

end Control

/-! ## In the processes -/

/-- Is the message `i` an update request for a slice that lags behind the version recorded for the round? -/
def System.lags (s : System α) : Action → Bool
  | .update _ _ _ => false
  | .deliver i =>
    match s.net[i]? with
    | none => false
    | some packet =>
      let src := packet.msg.src
      packet.msg.type = .kUpdate && packet.msg.dst.type = .kServer &&
        match (s.procs src.idOrProc).workerShard (hash src.grp packet.msg.paramId),
          (s.procs packet.proc).serverShard packet.msg.sliceId with
        | some entry, some kept => entry.shares.any fun p => kept.shares.any fun q => q.localVersion < p.localVersion
        | _, _ => false

/-- The shares of an entry of a process. -/
def System.shares (s : System α) (proc key : Int) : List (Param α) :=
  ((s.procs proc).workerShard key).elim [] (·.shares)

namespace Rounds

/-- When the stub has got the update of the round and parsed the responses of all slices, the version is above the
one that was recorded for the round. -/
def Releases (c : Rounds α) (s : System α) (e : GroupPart) : Prop :=
  ∃ entry p, (s.procs e.proc).workerShard (hash e.grp c.owner) = some entry ∧ entry.shares = [p] ∧
    ((∀ packet ∈ s.net, ¬ (packet.proc = e.proc ∧ c.FromWorker e packet.msg)) → true ∉ p.pendingUpdate →
      p.localVersion < p.version)

section Async

variable [Field α] {c : Rounds α} {s : System α} {a : Control} {e : GroupPart} {put : Int}

/-- No step of the run takes a request to a slice that lags. -/
def abreast (c : Rounds α) : System α → List Action → Bool
  | _, [] => true
  | s, action :: actions =>
    !s.lags action &&
      match c.step s action with
      | .ok s' => c.abreast s' actions
      | .error _ => true

omit [Field α] in
theorem Sim.abreast (sim : c.Sim s a) (wf : a.Wf c.plan) {action : Action} (keeps : s.lags action = false) :
    a.Abreast action := by
  cases action with
  | update e share step => trivial
  | deliver i =>
    intro e idx here l mem
    obtain ⟨known, lt⟩ : e ∈ c.parts ∧ idx < c.sizes.length := wf.known _ (List.mem_of_getElem? here)
    obtain ⟨packet, there, means⟩ := sim.means here
    obtain ⟨proc, source⟩ := means
    obtain ⟨entry, found, sits⟩ := sim.seat e known
    obtain ⟨kept, stored, desk⟩ := sim.desk idx lt
    obtain ⟨q, shares, -, version⟩ := desk.param
    rw [← sits.locals] at mem
    obtain ⟨p, member, rfl⟩ := List.mem_map.mp mem
    have found' : (s.procs packet.msg.src.idOrProc).workerShard (hash packet.msg.src.grp packet.msg.paramId) =
        some entry := by
      rw [source.src, source.paramId]
      exact found
    have stored' : (s.procs packet.proc).serverShard packet.msg.sliceId = some kept := by
      rw [proc, source.sliceId]
      exact stored
    have dst : packet.msg.dst.type = .kServer := by rw [source.dst]
    rw [System.lags, there] at keeps
    simp only [source.type, dst, found', stored', decide_true, Bool.true_and, shares, List.any_cons, List.any_nil,
      Bool.or_false, List.any_eq_false, decide_eq_true_eq, not_lt] at keeps
    exact version ▸ keeps p member

omit [Field α] in
/-- What the control flow says of a part holds of its entry. -/
theorem Sim.releases (async : Control.Async c.plan) (sim : c.Sim s a) (wf : a.Wf c.plan) (fresh : a.Fresh c.plan)
    (mem : e ∈ c.parts) : c.Releases s e := by
  obtain ⟨entry, found, sits⟩ := sim.seat e mem
  obtain ⟨p, rest, shares, front⟩ := sits.front
  have length := (wf.seat e mem).shares
  rw [← sits.locals, List.length_map, async.single e mem, shares, List.length_cons] at length
  have alone : rest = [] := List.length_eq_zero_iff.mp (by omega)
  rw [alone] at shares
  have member : p ∈ entry.shares := by rw [shares]; exact List.mem_cons_self
  refine ⟨entry, p, found, shares, fun none idle => ?_⟩
  rw [sits.versions p member]
  refine fresh.released async wf mem (front.pending ▸ idle) ?_ p.localVersion ?_
  · intro here
    obtain ⟨i, here⟩ := List.mem_iff_getElem?.mp here
    obtain ⟨packet, there, means⟩ := sim.means here
    exact none packet (List.mem_of_getElem? there) means
  · rw [← sits.locals]
    exact List.mem_map_of_mem member

theorem run_abreast (v : c.Valid) (async : Control.Async c.plan) (actions : List Action) (sim : c.Sim s a) (wf : a.Wf c.plan)
    (fresh : a.Fresh c.plan) (keeps : c.abreast s actions = true) :
    ∃ s', actions.foldlM c.step s = .ok s' ∧ ∀ e ∈ c.parts, c.Releases s' e := by
  induction actions generalizing s a with
  | nil => exact ⟨s, rfl, fun e mem => sim.releases async wf fresh mem⟩
  | cons action actions ih =>
    rw [Rounds.abreast, Bool.and_eq_true, Bool.not_eq_true'] at keeps
    obtain ⟨a', run, fresh'⟩ := fresh.act async wf (sim.abreast wf keeps.1)
    obtain ⟨s', step, sim'⟩ := sim.step v wf run
    have rest := keeps.2
    rw [step] at rest
    obtain ⟨s'', steps, releases⟩ := ih sim' (wf.act run) fresh' rest
    exact ⟨s'', by rw [List.foldlM_cons]; exact Run.do_ok.mpr ⟨s', step, steps⟩, releases⟩

/-- **A completed asynchronous round releases the worker** in every run in which no request comes to a slice that
lags behind the version recorded for its round. -/
theorem async_releases (start : c.Start put s) (single : ∀ e ∈ c.parts, e.numLocal = 1) (total : c.total = 1)
    (some : 0 < c.sizes.length) (actions : List Action) (keeps : c.abreast s actions = true) :
    ∃ s', actions.foldlM c.step s = .ok s' ∧ ∀ e ∈ c.parts, c.Releases s' e := by
  obtain ⟨a, initial, sim⟩ := start.sim
  exact run_abreast start.valid ⟨single, total, some⟩ actions sim (initial.wf start.positive) initial.fresh keeps

end Async

/-! ## Two groups and two slices -/

/-- The groups in the processes 0 and 1, both slices at a server in the process 2. -/
def twoGroups : Rounds ℚ where
  site := ⟨⟨⟨2, 1, 1, 1⟩, fun _ _ => 2⟩, [0, 0], ⟨fun _ _ data grad history => (data, grad, history), fun _ x _ => x⟩⟩
  parts := [⟨0, 0, 1⟩, ⟨1, 1, 1⟩]
  owner := 0
  start := 0
  sizes := [1, 1]
  dstGrp := 0
  total := 1

/-- Both slices were put with version 0. -/
def twoGroupsStart : System ℚ where
  procs _ := {
    mem := ⟨fun _ _ => 0, 4⟩
    workerShard := fun _ => some ⟨0, -1, 1, 1, [pairParam]⟩
    serverShard := fun _ => some (.ofPut 1 (unitParam 0)) }
  servers _ := ⟨0, 0, [0, 0], fun _ => [], fun _ => none, [], 0⟩
  net := []

theorem twoGroups_start : twoGroups.Start 0 twoGroupsStart where
  valid := ⟨by decide, by decide, by decide, by decide⟩
  positive := by decide
  net := rfl
  seat := by
    intro e mem
    refine ⟨_, [-1], rfl, ?_, by decide, ⟨pairParam, [], rfl, ⟨rfl, rfl⟩, rfl, rfl, rfl, rfl⟩, ?_, ?_, rfl, ?_, rfl⟩
    all_goals
      simp only [twoGroups, List.mem_cons, List.not_mem_nil, or_false] at mem
      rcases mem with rfl | rfl
    all_goals simp [pairParam, Param.owner, Param.version, twoGroups]
  desk := by
    intro idx lt
    refine ⟨_, rfl, ⟨unitParam 0, rfl, ?_, rfl⟩, rfl, rfl, .nil⟩
    match idx, lt with
    | 0, _ => rfl
    | 1, _ => rfl

/-- Group 0 completes a round while the request of group 1 for the second slice is still under way, and starts the
next one. -/
def overtaking : List Action :=
  [.update ⟨1, 1, 1⟩ 0 0, .deliver 0, .deliver 0, .update ⟨0, 0, 1⟩ 0 0, .deliver 2, .deliver 2, .deliver 2, .deliver 3,
    .deliver 2, .update ⟨0, 0, 1⟩ 0 1, .deliver 2, .deliver 2, .deliver 2, .deliver 2, .deliver 2]

/-- In the end nothing is under way for group 0, whose version is the one that it recorded. -/
theorem overtaking_run : (overtaking.foldlM twoGroups.step twoGroupsStart).map (fun s =>
    (s.net.map (·.proc), (s.shares 0 0).flatMap (·.pendingUpdate), (s.shares 0 0).map fun p => (p.localVersion, p.version))) =
    .ok ([2, 1], [false, false], [(2, 2)]) := by
  decide +kernel

theorem twoGroups_stuck : ¬ ∀ actions : List Action, ∃ s, actions.foldlM twoGroups.step twoGroupsStart = .ok s ∧
    ∀ e ∈ twoGroups.parts, twoGroups.Releases s e := by
  intro all
  obtain ⟨s, run, releases⟩ := all overtaking
  have reached := overtaking_run
  rw [run] at reached
  obtain ⟨procs, books⟩ := Prod.mk.inj (Except.ok.inj reached)
  obtain ⟨pending, versions⟩ := Prod.mk.inj books
  obtain ⟨entry, p, found, shares, moved⟩ := releases ⟨0, 0, 1⟩ List.mem_cons_self
  have own : s.shares 0 0 = [p] := by
    have found' : (s.procs 0).workerShard 0 = some entry := found
    rw [System.shares, found']
    exact shares
  rw [own] at pending versions
  simp only [List.flatMap_cons, List.flatMap_nil, List.append_nil] at pending
  simp only [List.map_cons, List.map_nil, List.cons.injEq, and_true, Prod.mk.injEq] at versions
  have less := moved (fun packet mem source => ?_) (by rw [pending]; decide)
  · omega
  · have proc := List.mem_map_of_mem (f := (·.proc)) mem
    rw [procs, source.1] at proc
    exact absurd proc (by decide)

/-- Group 0 completes a round. -/
theorem twoGroups_released : ∃ s, (overtaking.take 9).foldlM twoGroups.step twoGroupsStart = .ok s ∧
    ∀ e ∈ twoGroups.parts, twoGroups.Releases s e :=
  async_releases twoGroups_start (by decide) rfl (by decide) _ (by decide +kernel)

end Rounds

end Singa
