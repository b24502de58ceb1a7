import Mathlib
import Singa.Base.Events
import Singa.Utils.ClusterRt

/-!
# `utils/cluster_rt.cc`: the watch on a server group

A server is told when all workers have left its group. A worker is a node below
the group, a watch of ZooKeeper is for one change only, and `ChildChanges` puts
the next one when it lists the children. The requests of all processes, the
events on their way to the watchers and the ends of sessions come in any order.
-/

namespace Singa
set_option autoImplicit false

/-- `groupPath`, without the folder. -/
def groupName (gid : Int) : List Char := "sg".toList ++ Decimal.print gid

/-- `workerPath`, without the slash. -/
def workerName (gid wid : Int) : List Char := 'g' :: (Decimal.print gid ++ '_' :: 'w' :: Decimal.print wid)

/-- `kNumRetry`. -/
def kNumRetry : Nat := 10

/-- The arguments of `JoinSGroup` and `LeaveSGroup`, and the process. -/
structure SGroupWorker where
  gid : Int
  wid : Int
  sGroup : Int
  procs : Nat
  deriving DecidableEq, Repr

/-- The node that `JoinSGroup` creates. -/
def SGroupWorker.node (a : SGroupWorker) : ZNode := ⟨workerName a.gid a.wid, [], a.procs⟩

/-- The group of a call of `WatchSGroup`, and the process. -/
structure SGroupWatcher where
  gid : Int
  procs : Nat
  deriving DecidableEq, Repr

/-- How far a worker is. `JoinSGroup` retries where the node of the group is missing. -/
inductive MemberPhase where
  | start
  | retry (tries : Nat)
  | joined
  | left
  /-- the session has ended -/
  | ended
  deriving DecidableEq, Repr

/-- The worker has been in the group. -/
def MemberPhase.hasJoined : MemberPhase → Bool
  | joined | left | ended => true
  | start | retry _ => false

/-- The worker is not in the group any more. -/
def MemberPhase.gone : MemberPhase → Bool
  | left | ended => true
  | start | retry _ | joined => false

/-- `RTCallback`, with its watch. -/
structure RTCallback where
  /-- `fn` is not null. -/
  fn : Bool
  /-- A watch with the callback is at the node. -/
  armed : Bool
  /-- A child event is on its way to `ChildChanges`. -/
  event : Bool
  /-- How often `fn` has been called. -/
  calls : Nat
  deriving DecidableEq, Repr

/-- The change that a watch is for. -/
def RTCallback.touch (cb : RTCallback) : RTCallback := if cb.armed then { cb with armed := false, event := true } else cb

theorem RTCallback.touch_fn (cb : RTCallback) : cb.touch.fn = cb.fn := by
  unfold touch
  split <;> rfl

theorem RTCallback.touch_calls (cb : RTCallback) : cb.touch.calls = cb.calls := by
  unfold touch
  split <;> rfl

theorem RTCallback.touch_armed (cb : RTCallback) : cb.touch.armed = false := by
  unfold touch
  split
  · rfl
  · next off => simpa using off

theorem RTCallback.touch_event (cb : RTCallback) : cb.touch.event = true ↔ cb.armed = true ∨ cb.event = true := by
  unfold touch
  split
  · next on => simp [on]
  · next off => simp [off]

/-- How far `WatchSGroup` is. -/
inductive WatchPhase where
  | start
  | created
  | set (cb : RTCallback)
  deriving DecidableEq, Repr

def WatchPhase.touch : WatchPhase → WatchPhase
  | set cb => set cb.touch
  | start => start
  | created => created

/-- The nodes below `/group`, and the processes with their callbacks and workers. -/
structure SGroups (ι ω : Type) where
  nodes : List Char → Option (List ZNode)
  watch : ι → WatchPhase
  worker : ω → MemberPhase
  /-- The process has stopped. -/
  stopped : Nat → Bool

/-- A request, an event that arrives at `ChildChanges`, or the end of a session. -/
inductive SGroupEvent (ι ω : Type) where
  /-- `CreateNode` in `WatchSGroup` -/
  | createGroup (i : ι)
  /-- `WGetChild` in `WatchSGroup` -/
  | watchGroup (i : ι)
  /-- one attempt of `CreateNode` in `JoinSGroup` -/
  | join (w : ω)
  | leave (w : ω)
  /-- `ChildChanges` with `ZOO_CHILD_EVENT` -/
  | deliver (i : ι)
  /-- `ChildChanges` with another type -/
  | interrupt (i : ι)
  | close (p : Nat)

namespace SGroups

variable {ι ω : Type} [DecidableEq ι] [DecidableEq ω] (watcher : ι → SGroupWatcher) (addr : ω → SGroupWorker)

def init : SGroups ι ω := ⟨fun _ => none, fun _ => .start, fun _ => .start, fun _ => false⟩

section Model

variable (s : SGroups ι ω)

/-- ZooKeeper changes nodes: the watches on those whose children have changed are used up. -/
def change (nodes : List Char → Option (List ZNode)) : SGroups ι ω :=
  { s with
    nodes := nodes
    watch := fun i => if nodes (groupName (watcher i).gid) = s.nodes (groupName (watcher i).gid) then s.watch i
      else (s.watch i).touch }

/-- `LOG(FATAL)`. -/
def stop (p : Nat) : SGroups ι ω := { s with stopped := Function.update s.stopped p true }

/-- The node of the group; an existing one is reported by a warning only. -/
def createGroup (i : ι) : SGroups ι ω :=
  let name := groupName (watcher i).gid
  let s := match s.nodes name with
    | none => s.change watcher (Function.update s.nodes name (some []))
    | some _ => s
  { s with watch := Function.update s.watch i .created }

/-- `WGetChild`: the list that it returns is not used. -/
def watchGroup (i : ι) : SGroups ι ω :=
  match s.nodes (groupName (watcher i).gid) with
  | none => s.stop (watcher i).procs
  | some _ => { s with watch := Function.update s.watch i (.set ⟨true, true, false, 0⟩) }

def join (w : ω) (tries : Nat) : SGroups ι ω :=
  let name := groupName (addr w).sGroup
  match s.nodes name with
  | none =>
    if tries + 1 < kNumRetry then { s with worker := Function.update s.worker w (.retry (tries + 1)) } else s.stop (addr w).procs
  | some children =>
    let s := if children.any (·.name = (addr w).node.name) then s
      else s.change watcher (Function.update s.nodes name (some (children ++ [(addr w).node])))
    { s with worker := Function.update s.worker w .joined }

/-- `DeleteNode`: a missing node is reported by a warning only. -/
def leave (w : ω) : SGroups ι ω :=
  let name := groupName (addr w).sGroup
  let s := s.change watcher (Function.update s.nodes name
    ((s.nodes name).map (·.filter (·.name ≠ (addr w).node.name))))
  { s with worker := Function.update s.worker w .left }

/-- `ChildChanges`: the children are listed, and the callback is set again. -/
def deliver (i : ι) (cb : RTCallback) : SGroups ι ω :=
  if cb.fn then
    match s.nodes (groupName (watcher i).gid) with
    | none => s.stop (watcher i).procs
    | some [] => { s with watch := Function.update s.watch i (.set ⟨false, true, false, cb.calls + 1⟩) }
    | some (_ :: _) => { s with watch := Function.update s.watch i (.set { cb with armed := true, event := false }) }
  else { s with watch := Function.update s.watch i (.set { cb with event := false }) }

/-- `ChildChanges` does not take other events. -/
def interrupt (i : ι) (cb : RTCallback) : SGroups ι ω := if cb.fn then s.stop (watcher i).procs else s

/-- The end of the session of process `p`. -/
def close (p : Nat) : SGroups ι ω :=
  let s := s.change watcher fun name => (s.nodes name).map (·.filter (·.owner ≠ p))
  { s with
    worker := fun w => if (addr w).procs = p ∧ s.worker w = .joined then .ended else s.worker w
    stopped := Function.update s.stopped p true }

/-- One event; a process that has stopped makes no requests and gets no events. -/
def step (s : SGroups ι ω) : SGroupEvent ι ω → Option (SGroups ι ω)
  | .createGroup i => if s.watch i = .start ∧ s.stopped (watcher i).procs = false then some (s.createGroup watcher i) else none
  | .watchGroup i => if s.watch i = .created ∧ s.stopped (watcher i).procs = false then some (s.watchGroup watcher i) else none
  | .join w =>
    if s.stopped (addr w).procs then none
    else match s.worker w with
      | .start => some (s.join watcher addr w 0)
      | .retry tries => some (s.join watcher addr w tries)
      | _ => none
  | .leave w => if s.worker w = .joined ∧ s.stopped (addr w).procs = false then some (s.leave watcher addr w) else none
  | .deliver i =>
    if s.stopped (watcher i).procs then none
    else match s.watch i with
      | .set cb => if cb.event then some (s.deliver watcher i cb) else none
      | _ => none
  | .interrupt i =>
    if s.stopped (watcher i).procs then none
    else match s.watch i with
      | .set cb => some (s.interrupt watcher i cb)
      | _ => none
  | .close p => some (s.close watcher addr p)

end Model

/-! ## Names -/

theorem groupName_injective : Function.Injective groupName := by
  intro a b same
  exact Decimal.print_injective (List.append_cancel_left same)

theorem print_underscore (i : Int) : '_' ∉ Decimal.print i := by
  intro mem
  have ascii := Decimal.print_ascii mem
  revert ascii
  decide

theorem workerName_inj {gid wid gid' wid' : Int} (same : workerName gid wid = workerName gid' wid') : gid = gid' ∧ wid = wid' := by
  have split := (List.cons.inj same).2
  have first : ∀ g w : Int, (Decimal.print g ++ '_' :: 'w' :: Decimal.print w).takeWhile (· ≠ '_') = Decimal.print g := by
    intro g w
    rw [List.takeWhile_append_of_pos]
    · simp
    · intro c mem
      simp only [ne_eq, decide_eq_true_eq]
      rintro rfl
      exact print_underscore g mem
  have gids : Decimal.print gid = Decimal.print gid' := by rw [← first gid wid, split, first]
  obtain rfl := Decimal.print_injective gids
  exact ⟨rfl, Decimal.print_injective (List.cons.inj (List.cons.inj (List.append_cancel_left split)).2).2⟩

/-! ## What one event does -/

section Steps

variable {watcher addr} {s s' : SGroups ι ω}

theorem step_createGroup {i : ι} : step watcher addr s (.createGroup i) = some s' ↔
    s.watch i = .start ∧ s.stopped (watcher i).procs = false ∧ s.createGroup watcher i = s' := by
  simp [step, and_assoc]

theorem step_watchGroup {i : ι} : step watcher addr s (.watchGroup i) = some s' ↔
    s.watch i = .created ∧ s.stopped (watcher i).procs = false ∧ s.watchGroup watcher i = s' := by
  simp [step, and_assoc]

theorem step_join {w : ω} : step watcher addr s (.join w) = some s' ↔
    s.stopped (addr w).procs = false ∧ ∃ tries, (s.worker w = .start ∧ tries = 0 ∨ s.worker w = .retry tries) ∧
      s.join watcher addr w tries = s' := by
  cases here : s.worker w <;> simp [step, here]

theorem step_leave {w : ω} : step watcher addr s (.leave w) = some s' ↔
    s.worker w = .joined ∧ s.stopped (addr w).procs = false ∧ s.leave watcher addr w = s' := by
  simp [step, and_assoc]

theorem step_deliver {i : ι} : step watcher addr s (.deliver i) = some s' ↔
    s.stopped (watcher i).procs = false ∧ ∃ cb, s.watch i = .set cb ∧ cb.event = true ∧ s.deliver watcher i cb = s' := by
  cases here : s.watch i <;> simp [step, here]

theorem step_interrupt {i : ι} : step watcher addr s (.interrupt i) = some s' ↔
    s.stopped (watcher i).procs = false ∧ ∃ cb, s.watch i = .set cb ∧ s.interrupt watcher i cb = s' := by
  cases here : s.watch i <;> simp [step, here]

theorem step_close {p : Nat} : step watcher addr s (.close p) = some s' ↔ s.close watcher addr p = s' := by
  simp [step]

end Steps

/-! ## What holds in every state -/

variable {watcher addr} {s s' : SGroups ι ω} {i : ι} {w : ω} {cb : RTCallback}

/-- The children of a group are the workers that have joined it, and a callback that has not been called has a watch at
its node or an event on the way. -/
structure Wf (watcher : ι → SGroupWatcher) (addr : ω → SGroupWorker) (s : SGroups ι ω) : Prop where
  member : ∀ gid children, s.nodes (groupName gid) = some children → ∀ node ∈ children,
    ∃ w, (addr w).sGroup = gid ∧ s.worker w = .joined ∧ node = (addr w).node
  node : ∀ w, s.worker w = .joined → ∃ children, s.nodes (groupName (addr w).sGroup) = some children ∧ (addr w).node ∈ children
  there : ∀ i cb, s.watch i = .set cb → ∃ children, s.nodes (groupName (watcher i).gid) = some children
  once : ∀ i cb, s.watch i = .set cb → cb.calls = if cb.fn then 0 else 1
  awake : ∀ i cb, s.watch i = .set cb → cb.fn = true → (cb.armed = false ↔ cb.event = true)
  heard : ∀ i cb, s.watch i = .set cb → cb.event = true → ∃ w, (addr w).sGroup = (watcher i).gid ∧ (s.worker w).hasJoined = true

omit [DecidableEq ι] [DecidableEq ω] in
theorem wf_init : Wf watcher addr (init : SGroups ι ω) where
  member _ _ there := by cases there
  node _ joined := by cases joined
  there _ _ set := by cases set
  once _ _ set := by cases set
  awake _ _ set := by cases set
  heard _ _ set := by cases set

/-- No two workers of a group have one name. -/
def Distinct (addr : ω → SGroupWorker) : Prop :=
  ∀ w w', (addr w).sGroup = (addr w').sGroup → (addr w).gid = (addr w').gid → (addr w).wid = (addr w').wid → w = w'

omit [DecidableEq ω] in
theorem Distinct.name (distinct : Distinct addr) {w w' : ω} (group : (addr w).sGroup = (addr w').sGroup)
    (same : (addr w).node.name = (addr w').node.name) : w = w' :=
  distinct w w' group (workerName_inj same).1 (workerName_inj same).2

omit [DecidableEq ι] [DecidableEq ω] in
/-- A callback after a change. -/
theorem change_watch {nodes : List Char → Option (List ZNode)} (set : (s.change watcher nodes).watch i = .set cb) :
    ∃ cb₀, s.watch i = .set cb₀ ∧
      (nodes (groupName (watcher i).gid) = s.nodes (groupName (watcher i).gid) ∧ cb = cb₀ ∨
        nodes (groupName (watcher i).gid) ≠ s.nodes (groupName (watcher i).gid) ∧ cb = cb₀.touch) := by
  unfold change at set
  dsimp only at set
  split at set
  · next same => exact ⟨cb, set, .inl ⟨same, rfl⟩⟩
  · next other =>
    cases here : s.watch i with
    | set cb₀ =>
      rw [here] at set
      exact ⟨cb₀, rfl, .inr ⟨other, (WatchPhase.set.inj set).symm⟩⟩
    | start =>
      rw [here] at set
      cases set
    | created =>
      rw [here] at set
      cases set

namespace Wf

omit [DecidableEq ι] [DecidableEq ω] in
/-- The rule for a change of the nodes. -/
theorem change (wf : Wf watcher addr s) (stopped : Nat → Bool) {nodes : List Char → Option (List ZNode)} {worker : ω → MemberPhase}
    (member : ∀ gid children, nodes (groupName gid) = some children → ∀ node ∈ children,
      ∃ w, (addr w).sGroup = gid ∧ worker w = .joined ∧ node = (addr w).node)
    (node : ∀ w, worker w = .joined → ∃ children, nodes (groupName (addr w).sGroup) = some children ∧ (addr w).node ∈ children)
    (keep : ∀ name children, s.nodes name = some children → ∃ children', nodes name = some children')
    (past : ∀ w, (s.worker w).hasJoined = true → (worker w).hasJoined = true)
    (heard : ∀ gid children, s.nodes (groupName gid) = some children → nodes (groupName gid) ≠ some children →
      ∃ w, (addr w).sGroup = gid ∧ (worker w).hasJoined = true) :
    Wf watcher addr { s.change watcher nodes with worker := worker, stopped := stopped } := by
  refine ⟨member, node, fun i cb set => ?_, fun i cb set => ?_, fun i cb set fn => ?_, fun i cb set event => ?_⟩
  all_goals obtain ⟨cb₀, before, same⟩ := change_watch set
  all_goals obtain ⟨children, there⟩ := wf.there i cb₀ before
  · exact keep _ _ there
  · rcases same with ⟨-, rfl⟩ | ⟨-, rfl⟩
    · exact wf.once i cb before
    · rw [RTCallback.touch_calls, RTCallback.touch_fn]
      exact wf.once i cb₀ before
  · rcases same with ⟨-, rfl⟩ | ⟨-, rfl⟩
    · exact wf.awake i cb before fn
    · rw [RTCallback.touch_fn] at fn
      have awake := wf.awake i cb₀ before fn
      rw [RTCallback.touch_armed, RTCallback.touch_event]
      cases armed : cb₀.armed with
      | true => simp
      | false => simp [awake.mp armed]
  · rcases same with ⟨-, rfl⟩ | ⟨other, rfl⟩
    · obtain ⟨w, group, joined⟩ := wf.heard i cb before event
      exact ⟨w, group, past w joined⟩
    · rw [there] at other
      exact heard _ children there other

omit [DecidableEq ω] in
/-- The rule for a callback. -/
theorem watch (wf : Wf watcher addr s) {phase : WatchPhase}
    (there : ∀ cb, phase = .set cb → ∃ children, s.nodes (groupName (watcher i).gid) = some children)
    (once : ∀ cb, phase = .set cb → cb.calls = if cb.fn then 0 else 1)
    (awake : ∀ cb, phase = .set cb → cb.fn = true → (cb.armed = false ↔ cb.event = true))
    (silent : ∀ cb, phase = .set cb → cb.event = false) :
    Wf watcher addr { s with watch := Function.update s.watch i phase } := by
  have cases : ∀ {P : ι → RTCallback → Prop}, (∀ cb, phase = .set cb → P i cb) → (∀ j cb, s.watch j = .set cb → P j cb) →
      ∀ j cb, Function.update s.watch i phase j = .set cb → P j cb := by
    intro P here others j cb set
    by_cases same : j = i
    · subst same
      rw [Function.update_self] at set
      exact here cb set
    · rw [Function.update_of_ne same] at set
      exact others j cb set
  refine ⟨wf.member, wf.node, cases there wf.there, cases once wf.once, cases awake wf.awake, cases (fun cb set event => ?_) wf.heard⟩
  rw [silent cb set] at event
  cases event

omit [DecidableEq ι] [DecidableEq ω] in
theorem stop (wf : Wf watcher addr s) (p : Nat) : Wf watcher addr (s.stop p) :=
  ⟨wf.member, wf.node, wf.there, wf.once, wf.awake, wf.heard⟩

omit [DecidableEq ω] in
theorem createGroup (wf : Wf watcher addr s) : Wf watcher addr (s.createGroup watcher i) := by
  have silent : ∀ {β : RTCallback → Prop} (cb : RTCallback), WatchPhase.created = .set cb → β cb := fun cb set => by cases set
  have before : Wf watcher addr (match s.nodes (groupName (watcher i).gid) with
      | none => s.change watcher (Function.update s.nodes (groupName (watcher i).gid) (some []))
      | some _ => s) := by
    cases here : s.nodes (groupName (watcher i).gid) with
    | some children => exact wf
    | none =>
      have other : ∀ name children, s.nodes name = some children → name ≠ groupName (watcher i).gid := by
        rintro name children there rfl
        rw [here] at there
        cases there
      show Wf watcher addr { s.change watcher (Function.update s.nodes (groupName (watcher i).gid) (some [])) with
        worker := s.worker, stopped := s.stopped }
      refine wf.change _ (fun gid children there node mem => ?_) (fun w joined => ?_) (fun name children there => ?_)
        (fun _ joined => joined) (fun gid children there changed => ?_)
      · by_cases same : groupName gid = groupName (watcher i).gid
        · rw [same, Function.update_self] at there
          rw [← Option.some.inj there] at mem
          cases mem
        · rw [Function.update_of_ne same] at there
          exact wf.member gid children there node mem
      · obtain ⟨children, there, mem⟩ := wf.node w joined
        exact ⟨children, (Function.update_of_ne (other _ _ there) _ _).trans there, mem⟩
      · exact ⟨children, (Function.update_of_ne (other _ _ there) _ _).trans there⟩
      · exact absurd ((Function.update_of_ne (other _ _ there) _ _).trans there) changed
  exact before.watch silent silent silent silent

omit [DecidableEq ω] in
theorem watchGroup (wf : Wf watcher addr s) : Wf watcher addr (s.watchGroup watcher i) := by
  unfold SGroups.watchGroup
  split
  · exact wf.stop _
  · next children there =>
    refine wf.watch (fun cb set => ⟨children, there⟩) (fun cb set => ?_) (fun cb set _ => ?_) fun cb set => ?_
    all_goals cases set
    all_goals simp

omit [DecidableEq ι] [DecidableEq ω] in
/-- The node of a worker that has not joined yet is not there. -/
theorem fresh (wf : Wf watcher addr s) (distinct : Distinct addr) (before : (s.worker w).hasJoined = false) {children : List ZNode}
    (there : s.nodes (groupName (addr w).sGroup) = some children) : ¬children.any (·.name = (addr w).node.name) := by
  intro mem
  obtain ⟨node, listed, same⟩ := List.any_eq_true.mp mem
  replace same := of_decide_eq_true same
  obtain ⟨w', group, joined, rfl⟩ := wf.member _ children there node listed
  obtain rfl := distinct.name group same
  rw [joined] at before
  cases before

omit [DecidableEq ι] in
/-- What `JoinSGroup` does where the node of the group is there. -/
theorem join_eq (wf : Wf watcher addr s) (distinct : Distinct addr) (before : (s.worker w).hasJoined = false) (tries : Nat)
    {children : List ZNode} (there : s.nodes (groupName (addr w).sGroup) = some children) :
    s.join watcher addr w tries =
      { s.change watcher (Function.update s.nodes (groupName (addr w).sGroup) (some (children ++ [(addr w).node]))) with
        worker := Function.update s.worker w .joined } := by
  unfold SGroups.join
  dsimp only
  rw [there]
  dsimp only
  rw [if_neg (wf.fresh distinct before there)]
  rfl

omit [DecidableEq ι] in
theorem join (wf : Wf watcher addr s) (distinct : Distinct addr) (before : (s.worker w).hasJoined = false) (tries : Nat) :
    Wf watcher addr (s.join watcher addr w tries) := by
  cases there : s.nodes (groupName (addr w).sGroup) with
  | none =>
    have out : s.worker w ≠ .joined := by
      intro joined
      rw [joined] at before
      cases before
    unfold SGroups.join
    dsimp only
    rw [there]
    dsimp only
    split
    · refine ⟨fun gid children there node mem => ?_, fun w' joined => ?_, wf.there, wf.once, wf.awake, fun i cb set event => ?_⟩
      · obtain ⟨w', group, joined, same⟩ := wf.member gid children there node mem
        refine ⟨w', group, (Function.update_of_ne ?_ _ _).trans joined, same⟩
        rintro rfl
        exact out joined
      · dsimp only at joined
        by_cases same : w' = w
        · subst same
          rw [Function.update_self] at joined
          cases joined
        · rw [Function.update_of_ne same] at joined
          exact wf.node w' joined
      · obtain ⟨w', group, joined⟩ := wf.heard i cb set event
        refine ⟨w', group, (congrArg _ (Function.update_of_ne ?_ _ _)).trans joined⟩
        rintro rfl
        rw [joined] at before
        cases before
    · exact wf.stop _
  | some children =>
    rw [wf.join_eq distinct before tries there]
    refine wf.change s.stopped (fun gid listed here node mem => ?_) (fun w' joined => ?_)
      (fun name listed here => ?_) (fun w' joined => ?_) (fun gid listed here changed => ?_)
    · have others : ∀ w', s.worker w' = .joined → Function.update s.worker w .joined w' = .joined := by
        intro w' joined
        by_cases same : w' = w
        · rw [same, Function.update_self]
        · rw [Function.update_of_ne same, joined]
      by_cases same : groupName gid = groupName (addr w).sGroup
      · obtain rfl := groupName_injective same
        rw [Function.update_self] at here
        rw [← Option.some.inj here] at mem
        rcases List.mem_append.mp mem with mem | mem
        · obtain ⟨w', group, joined, node⟩ := wf.member _ children there node mem
          exact ⟨w', group, others w' joined, node⟩
        · exact ⟨w, rfl, Function.update_self _ _ _, List.mem_singleton.mp mem⟩
      · rw [Function.update_of_ne same] at here
        obtain ⟨w', group, joined, node⟩ := wf.member _ listed here node mem
        exact ⟨w', group, others w' joined, node⟩
    · by_cases same : w' = w
      · subst same
        exact ⟨_, Function.update_self _ _ _, by simp⟩
      · rw [Function.update_of_ne same] at joined
        obtain ⟨listed, here, mem⟩ := wf.node w' joined
        by_cases group : groupName (addr w').sGroup = groupName (addr w).sGroup
        · rw [group, there] at here
          rw [group]
          exact ⟨_, Function.update_self _ _ _, List.mem_append_left _ (Option.some.inj here ▸ mem)⟩
        · exact ⟨listed, (Function.update_of_ne group _ _).trans here, mem⟩
    · by_cases group : name = groupName (addr w).sGroup
      · subst group
        exact ⟨_, Function.update_self _ _ _⟩
      · exact ⟨listed, (Function.update_of_ne group _ _).trans here⟩
    · by_cases same : w' = w
      · rw [same, Function.update_self]
        rfl
      · rwa [Function.update_of_ne same]
    · by_cases group : groupName gid = groupName (addr w).sGroup
      · obtain rfl := groupName_injective group
        exact ⟨w, rfl, by rw [Function.update_self]; rfl⟩
      · exact absurd ((Function.update_of_ne group _ _).trans here) changed

omit [DecidableEq ι] in
theorem leave (wf : Wf watcher addr s) (distinct : Distinct addr) (joined : s.worker w = .joined) :
    Wf watcher addr (s.leave watcher addr w) := by
  refine wf.change s.stopped (fun gid listed here node mem => ?_) (fun w' joined' => ?_)
    (fun name listed here => ?_) (fun w' joined' => ?_) (fun gid listed here changed => ?_)
  · by_cases same : groupName gid = groupName (addr w).sGroup
    · obtain rfl := groupName_injective same
      rw [Function.update_self] at here
      obtain ⟨children, there, rfl⟩ := Option.map_eq_some_iff.mp here
      obtain ⟨mem, other⟩ := List.mem_filter.mp mem
      obtain ⟨w', group, joined', rfl⟩ := wf.member _ children there node mem
      refine ⟨w', group, (Function.update_of_ne ?_ _ _).trans joined', rfl⟩
      rintro rfl
      simp at other
    · rw [Function.update_of_ne same] at here
      obtain ⟨w', group, joined', rfl⟩ := wf.member _ listed here node mem
      refine ⟨w', group, (Function.update_of_ne ?_ _ _).trans joined', rfl⟩
      rintro rfl
      exact same (congrArg groupName group.symm)
  · have apart : w' ≠ w := by
      rintro rfl
      rw [Function.update_self] at joined'
      cases joined'
    rw [Function.update_of_ne apart] at joined'
    obtain ⟨listed, here, mem⟩ := wf.node w' joined'
    by_cases group : groupName (addr w').sGroup = groupName (addr w).sGroup
    · refine ⟨listed.filter (·.name ≠ (addr w).node.name), ?_, List.mem_filter.mpr ⟨mem, ?_⟩⟩
      · rw [group, Function.update_self, ← group, here]
        rfl
      · simp only [ne_eq, decide_eq_true_eq]
        exact fun name => apart (distinct.name (groupName_injective group) name)
    · exact ⟨listed, (Function.update_of_ne group _ _).trans here, mem⟩
  · by_cases group : name = groupName (addr w).sGroup
    · subst group
      exact ⟨_, by rw [Function.update_self, here]; rfl⟩
    · exact ⟨listed, (Function.update_of_ne group _ _).trans here⟩
  · by_cases same : w' = w
    · rw [same, Function.update_self]
      rfl
    · rwa [Function.update_of_ne same]
  · by_cases group : groupName gid = groupName (addr w).sGroup
    · obtain rfl := groupName_injective group
      exact ⟨w, rfl, by rw [Function.update_self]; rfl⟩
    · exact absurd ((Function.update_of_ne group _ _).trans here) changed

omit [DecidableEq ι] [DecidableEq ω] in
theorem close (wf : Wf watcher addr s) (p : Nat) : Wf watcher addr (s.close watcher addr p) := by
  have past : ∀ w, (s.worker w).hasJoined = true →
      (if (addr w).procs = p ∧ s.worker w = .joined then MemberPhase.ended else s.worker w).hasJoined = true := by
    intro w joined
    split
    · rfl
    · exact joined
  refine wf.change _ (fun gid listed here node mem => ?_) (fun w joined => ?_) (fun name listed here => ?_) past
    (fun gid listed here changed => ?_)
  · obtain ⟨children, there, rfl⟩ := Option.map_eq_some_iff.mp here
    obtain ⟨mem, other⟩ := List.mem_filter.mp mem
    obtain ⟨w, group, joined, rfl⟩ := wf.member gid children there node mem
    refine ⟨w, group, ?_, rfl⟩
    rw [if_neg]
    · exact joined
    · rintro ⟨rfl, -⟩
      simp [SGroupWorker.node] at other
  · split at joined
    · cases joined
    · next other =>
      obtain ⟨children, there, mem⟩ := wf.node w joined
      refine ⟨_, by rw [there]; rfl, List.mem_filter.mpr ⟨mem, ?_⟩⟩
      simp only [ne_eq, decide_eq_true_eq]
      exact fun owner => other ⟨owner, joined⟩
  · exact ⟨_, by rw [here]; rfl⟩
  · -- a node that goes is that of a worker
    have gone : ∃ node ∈ listed, node.owner = p := by
      by_contra none
      push Not at none
      refine changed ?_
      rw [here, Option.map_some, List.filter_eq_self.mpr]
      simpa using none
    obtain ⟨node, mem, -⟩ := gone
    obtain ⟨w, group, joined, -⟩ := wf.member gid listed here node mem
    exact ⟨w, group, past w (by rw [joined]; rfl)⟩

omit [DecidableEq ω] in
theorem deliver (wf : Wf watcher addr s) (set : s.watch i = .set cb) : Wf watcher addr (s.deliver watcher i cb) := by
  unfold SGroups.deliver
  split
  · next fn =>
    split
    · exact wf.stop _
    · next there =>
      refine wf.watch (fun _ _ => ⟨_, there⟩) (fun cb' set' => ?_) (fun cb' set' fn' => ?_) fun cb' set' => ?_
      all_goals cases set'
      · have once := wf.once i cb set
        rw [fn] at once
        rw [once]
        rfl
      · cases fn'
      · rfl
    · next there =>
      refine wf.watch (fun _ _ => ⟨_, there⟩) (fun cb' set' => ?_) (fun cb' set' fn' => ?_) fun cb' set' => ?_
      all_goals cases set'
      · exact wf.once i cb set
      · simp
      · rfl
  · next off =>
    refine wf.watch (fun _ _ => wf.there i cb set) (fun cb' set' => ?_) (fun cb' set' fn' => ?_) fun cb' set' => ?_
    all_goals cases set'
    · exact wf.once i cb set
    · exact absurd fn' off
    · rfl

theorem step (wf : Wf watcher addr s) (distinct : Distinct addr) {e : SGroupEvent ι ω} (h : SGroups.step watcher addr s e = some s') :
    Wf watcher addr s' := by
  cases e with
  | createGroup i =>
    obtain ⟨-, -, rfl⟩ := step_createGroup.mp h
    exact wf.createGroup
  | watchGroup i =>
    obtain ⟨-, -, rfl⟩ := step_watchGroup.mp h
    exact wf.watchGroup
  | join w =>
    obtain ⟨-, tries, phase, rfl⟩ := step_join.mp h
    refine wf.join distinct ?_ tries
    rcases phase with ⟨phase, -⟩ | phase <;> rw [phase] <;> rfl
  | leave w =>
    obtain ⟨joined, -, rfl⟩ := step_leave.mp h
    exact wf.leave distinct joined
  | deliver i =>
    obtain ⟨-, cb, set, -, rfl⟩ := step_deliver.mp h
    exact wf.deliver set
  | interrupt i =>
    obtain ⟨-, cb, set, rfl⟩ := step_interrupt.mp h
    unfold interrupt
    split
    · exact wf.stop _
    · exact wf
  | close p =>
    obtain rfl := step_close.mp h
    exact wf.close p

end Wf

/-! ## What one event does to a callback and to a worker -/

omit [DecidableEq ι] [DecidableEq ω] in
theorem change_watch_eq (nodes : List Char → Option (List ZNode)) (i : ι) :
    (s.change watcher nodes).watch i = s.watch i ∨ (s.change watcher nodes).watch i = (s.watch i).touch := by
  unfold change
  dsimp only
  split
  · exact .inl rfl
  · exact .inr rfl

/-- A callback stays what it is, or its watch is used up, or it is set, or `ChildChanges` gets its event. -/
theorem step_watch {e : SGroupEvent ι ω} (h : step watcher addr s e = some s') (i : ι) :
    (s'.watch i = s.watch i ∨ s'.watch i = (s.watch i).touch) ∨
      ((∀ cb, s.watch i ≠ .set cb) ∧ ∀ cb, s'.watch i = .set cb → cb.fn = true ∧ cb.event = false) ∨
      ∃ cb, s.watch i = .set cb ∧ cb.event = true ∧ e = .deliver i ∧ s' = s.deliver watcher i cb := by
  have elsewhere : ∀ {j : ι} {watch : ι → WatchPhase} (phase : WatchPhase), i ≠ j → Function.update watch j phase i = watch i :=
    fun {_ watch} phase other => Function.update_of_ne other phase watch
  cases e with
  | createGroup j =>
    obtain ⟨first, -, rfl⟩ := step_createGroup.mp h
    by_cases same : i = j
    · subst same
      refine .inr (.inl ⟨fun cb set => ?_, fun cb set => ?_⟩)
      · rw [first] at set
        cases set
      · unfold createGroup at set
        dsimp only at set
        rw [Function.update_self] at set
        cases set
    · refine .inl ?_
      unfold createGroup
      dsimp only
      rw [elsewhere _ same]
      split
      · exact change_watch_eq _ i
      · exact .inl rfl
  | watchGroup j =>
    obtain ⟨second, -, rfl⟩ := step_watchGroup.mp h
    unfold watchGroup
    split
    · exact .inl (.inl rfl)
    · by_cases same : i = j
      · subst same
        refine .inr (.inl ⟨fun cb set => ?_, fun cb set => ?_⟩)
        · rw [second] at set
          cases set
        · dsimp only at set
          rw [Function.update_self] at set
          cases set
          exact ⟨rfl, rfl⟩
      · exact .inl (.inl (elsewhere _ same))
  | join w =>
    obtain ⟨-, tries, -, rfl⟩ := step_join.mp h
    refine .inl ?_
    unfold join
    dsimp only
    split
    · split
      · exact .inl rfl
      · exact .inl rfl
    · dsimp only
      split
      · exact .inl rfl
      · exact change_watch_eq _ i
  | leave w =>
    obtain ⟨-, -, rfl⟩ := step_leave.mp h
    exact .inl (change_watch_eq _ i)
  | deliver j =>
    obtain ⟨-, cb, set, event, rfl⟩ := step_deliver.mp h
    by_cases same : i = j
    · subst same
      exact .inr (.inr ⟨cb, set, event, rfl, rfl⟩)
    · refine .inl (.inl ?_)
      unfold deliver
      split
      · split
        · rfl
        · exact elsewhere _ same
        · exact elsewhere _ same
      · exact elsewhere _ same
  | interrupt j =>
    obtain ⟨-, cb, -, rfl⟩ := step_interrupt.mp h
    unfold interrupt
    split
    · exact .inl (.inl rfl)
    · exact .inl (.inl rfl)
  | close p =>
    obtain rfl := step_close.mp h
    have watch := @change_watch_eq _ _ watcher s (fun name => (s.nodes name).map (·.filter (·.owner ≠ p))) i
    exact .inl watch

/-- The event takes a worker of the group away. -/
def Removes (addr : ω → SGroupWorker) (s : SGroups ι ω) (gid : Int) : SGroupEvent ι ω → Prop
  | .leave w => (addr w).sGroup = gid
  | .close p => ∃ w, (addr w).sGroup = gid ∧ (addr w).procs = p ∧ s.worker w = .joined
  | _ => False

/-- A worker stays where it is, or comes nearer to the group, or goes. -/
theorem step_worker {e : SGroupEvent ι ω} (h : step watcher addr s e = some s') (w : ω) :
    s'.worker w = s.worker w ∨ ((s.worker w).hasJoined = false ∧ (s'.worker w).gone = false) ∨
      (s.worker w = .joined ∧ (s'.worker w).gone = true ∧ Removes addr s (addr w).sGroup e) := by
  cases e with
  | createGroup j =>
    obtain ⟨-, -, rfl⟩ := step_createGroup.mp h
    refine .inl ?_
    unfold createGroup
    dsimp only
    split
    · rfl
    · rfl
  | watchGroup j =>
    obtain ⟨-, -, rfl⟩ := step_watchGroup.mp h
    refine .inl ?_
    unfold watchGroup
    split
    · rfl
    · rfl
  | join w' =>
    obtain ⟨-, tries, phase, rfl⟩ := step_join.mp h
    have before : (s.worker w').hasJoined = false := by
      rcases phase with ⟨phase, -⟩ | phase <;> rw [phase] <;> rfl
    have enters : ∀ {phase : MemberPhase}, phase.gone = false →
        Function.update s.worker w' phase w = s.worker w ∨
          ((s.worker w).hasJoined = false ∧ (Function.update s.worker w' phase w).gone = false) := by
      intro phase stays
      by_cases same : w = w'
      · subst same
        rw [Function.update_self]
        exact .inr ⟨before, stays⟩
      · exact .inl (Function.update_of_ne same _ _)
    refine or_assoc.mp (.inl ?_)
    unfold join
    dsimp only
    split
    · split
      · exact enters rfl
      · exact .inl rfl
    · dsimp only
      split
      · exact enters rfl
      · exact enters rfl
  | leave w' =>
    obtain ⟨joined, -, rfl⟩ := step_leave.mp h
    by_cases same : w = w'
    · subst same
      refine .inr (.inr ⟨joined, ?_, rfl⟩)
      show (Function.update s.worker w MemberPhase.left w).gone = true
      rw [Function.update_self]
      rfl
    · exact .inl (Function.update_of_ne same _ _)
  | deliver j =>
    obtain ⟨-, cb, -, -, rfl⟩ := step_deliver.mp h
    refine .inl ?_
    unfold deliver
    split
    · split
      · rfl
      · rfl
      · rfl
    · rfl
  | interrupt j =>
    obtain ⟨-, cb, -, rfl⟩ := step_interrupt.mp h
    unfold interrupt
    split
    · exact .inl rfl
    · exact .inl rfl
  | close p =>
    obtain rfl := step_close.mp h
    unfold close
    dsimp only
    split
    · next own => exact .inr (.inr ⟨own.2, rfl, w, rfl, own.1, own.2⟩)
    · exact .inl rfl

/-- **A worker that goes leaves an event behind** for every callback of its group that has not been called. -/
theorem step_removed (wf : Wf watcher addr s) {e : SGroupEvent ι ω} (h : step watcher addr s e = some s')
    (set : s.watch i = .set cb) (fn : cb.fn = true) (removes : Removes addr s (watcher i).gid e) :
    ∃ cb', s'.watch i = .set cb' ∧ cb'.fn = true ∧ cb'.event = true := by
  have touched : ∀ {nodes : List Char → Option (List ZNode)}, nodes (groupName (watcher i).gid) ≠ s.nodes (groupName (watcher i).gid) →
      ∃ cb', (s.change watcher nodes).watch i = .set cb' ∧ cb'.fn = true ∧ cb'.event = true := by
    intro nodes other
    refine ⟨cb.touch, ?_, ?_, ?_⟩
    · unfold change
      dsimp only
      rw [if_neg other, set]
      rfl
    · rw [RTCallback.touch_fn, fn]
    · rw [RTCallback.touch_event]
      have awake := wf.awake i cb set fn
      cases armed : cb.armed with
      | true => exact .inl rfl
      | false => exact .inr (awake.mp armed)
  cases e with
  | leave w =>
    obtain ⟨joined, -, rfl⟩ := step_leave.mp h
    have group : (addr w).sGroup = (watcher i).gid := removes
    obtain ⟨children, there, mem⟩ := wf.node w joined
    refine touched ?_
    rw [← group, Function.update_self, there]
    intro same
    have kept := List.filter_eq_self.mp (Option.some.inj same) _ mem
    simp at kept
  | close p =>
    obtain rfl := step_close.mp h
    obtain ⟨w, group, procs, joined⟩ := removes
    obtain ⟨children, there, mem⟩ := wf.node w joined
    refine @touched (fun name => (s.nodes name).map (·.filter (·.owner ≠ p))) ?_
    rw [← group, there]
    intro same
    have kept := List.filter_eq_self.mp (Option.some.inj same) _ mem
    simp [SGroupWorker.node, procs] at kept
  | createGroup j => exact removes.elim
  | watchGroup j => exact removes.elim
  | join w => exact removes.elim
  | deliver j => exact removes.elim
  | interrupt j => exact removes.elim

/-! ## Whole runs -/

variable {events : List (SGroupEvent ι ω)}

theorem reached_wf (distinct : Distinct addr) (h : Events.Reached (step watcher addr) init events s) : Wf watcher addr s :=
  Events.reached_inv (Wf watcher addr) wf_init (fun _ _ _ _ wf pass => wf.step distinct pass) h

omit [DecidableEq ω] in
/-- What `ChildChanges` makes of a callback. -/
theorem deliver_watch {cb' : RTCallback} (set : s.watch i = .set cb) (set' : (s.deliver watcher i cb).watch i = .set cb') :
    cb'.fn = cb.fn ∧ (s.nodes (groupName (watcher i).gid) = some [] → cb.fn = false) ∨
      cb.fn = true ∧ cb'.fn = false ∧ s.nodes (groupName (watcher i).gid) = some [] := by
  unfold deliver at set'
  split at set'
  · next fn =>
    split at set'
    · next there =>
      rw [stop, set] at set'
      rw [← WatchPhase.set.inj set', there]
      exact .inl ⟨rfl, fun none => by cases none⟩
    · next there =>
      dsimp only at set'
      rw [Function.update_self] at set'
      rw [← WatchPhase.set.inj set']
      exact .inr ⟨fn, rfl, there⟩
    · next there =>
      dsimp only at set'
      rw [Function.update_self] at set'
      rw [← WatchPhase.set.inj set', there]
      exact .inl ⟨rfl, fun none => by cases none⟩
  · next off =>
    dsimp only at set'
    rw [Function.update_self] at set'
    rw [← WatchPhase.set.inj set']
    exact .inl ⟨rfl, fun _ => by simpa using off⟩

/-- No worker is in the group any more, and one has been. -/
def Deserted (addr : ω → SGroupWorker) (s : SGroups ι ω) (gid : Int) : Prop :=
  (∀ w, (addr w).sGroup = gid → s.worker w ≠ .joined) ∧ ∃ w, (addr w).sGroup = gid ∧ (s.worker w).gone = true

omit [DecidableEq ι] [DecidableEq ω] in
/-- A callback is called when its group is deserted. -/
theorem deliver_deserted (wf : Wf watcher addr s) (set : s.watch i = .set cb) (event : cb.event = true)
    (empty : s.nodes (groupName (watcher i).gid) = some []) : Deserted addr s (watcher i).gid := by
  have out : ∀ w, (addr w).sGroup = (watcher i).gid → s.worker w ≠ .joined := by
    intro w group joined
    obtain ⟨children, there, mem⟩ := wf.node w joined
    rw [group, empty] at there
    rw [← Option.some.inj there] at mem
    cases mem
  refine ⟨out, ?_⟩
  obtain ⟨w, group, joined⟩ := wf.heard i cb set event
  refine ⟨w, group, ?_⟩
  cases phase : s.worker w with
  | left => rfl
  | ended => rfl
  | joined => exact absurd phase (out w group)
  | start =>
    rw [phase] at joined
    cases joined
  | retry tries =>
    rw [phase] at joined
    cases joined

/-- **A server is told once, and not as long as there are workers**: a callback of `WatchSGroup` is called at most once,
and then there has been a moment at which some workers had left the group, and no worker was in it. -/
theorem called_once (distinct : Distinct addr) (h : Events.Reached (step watcher addr) init events s) (set : s.watch i = .set cb) :
    cb.calls ≤ 1 ∧ (cb.calls = 1 → ∃ s₁, Events.Reached (step watcher addr) init events s₁ ∧ Deserted addr s₁ (watcher i).gid) := by
  have told : ∀ i cb, s.watch i = .set cb → cb.fn = false →
      ∃ s₁, Events.Reached (step watcher addr) init events s₁ ∧ Deserted addr s₁ (watcher i).gid := by
    refine Events.reached_inv (fun s => ∀ i cb, s.watch i = .set cb → cb.fn = false →
      ∃ s₁, Events.Reached (step watcher addr) init events s₁ ∧ Deserted addr s₁ (watcher i).gid) (fun i cb set => by cases set)
      (fun s e s' comes before pass i cb set fn => ?_) h
    rcases step_watch pass i with (same | touched) | ⟨-, fresh⟩ | ⟨cb₀, set₀, event, -, rfl⟩
    · exact before i cb (same ▸ set) fn
    · rw [touched] at set
      cases here : s.watch i with
      | set cb₀ =>
        rw [here] at set
        rw [← WatchPhase.set.inj set, RTCallback.touch_fn] at fn
        exact before i cb₀ here fn
      | start =>
        rw [here] at set
        cases set
      | created =>
        rw [here] at set
        cases set
    · rw [(fresh cb set).1] at fn
      cases fn
    · rcases deliver_watch set₀ set with ⟨same, -⟩ | ⟨-, -, empty⟩
      · exact before i cb₀ set₀ (same ▸ fn)
      · exact ⟨s, comes.reached, deliver_deserted (reached_wf distinct comes.reached) set₀ event empty⟩
  have once := (reached_wf distinct h).once i cb set
  cases fn : cb.fn with
  | true =>
    rw [fn] at once
    simp [once]
  | false =>
    rw [fn] at once
    exact ⟨once.le, fun _ => told i cb set fn⟩

/-- The server of the test `GroupManagement`, and its workers. -/
def testWatcher (_ : Unit) : SGroupWatcher := ⟨1, 0⟩

def testWorker (second : Bool) : SGroupWorker := ⟨1, if second then 2 else 1, 1, 0⟩

/-- The calls of `GroupManagement`, and what they bring to `ChildChanges`. -/
def groupManagement : List (SGroupEvent Unit Bool) :=
  [.createGroup (), .watchGroup (), .join false, .deliver (), .join true, .leave true, .deliver (), .leave false, .deliver ()]

/-- The state after some events of the test. -/
def tested (events : List (SGroupEvent Unit Bool)) : SGroups Unit Bool :=
  (events.foldlM (step testWatcher testWorker) init).getD init

theorem testWorker_distinct : Distinct testWorker := by
  unfold Distinct
  decide

theorem called_once_groupManagement : groupManagement.foldlM (step testWatcher testWorker) init = some (tested groupManagement) ∧
    (tested groupManagement).watch () = .set ⟨false, true, false, 1⟩ ∧
    ∃ s₁, Events.Reached (step testWatcher testWorker) init groupManagement s₁ ∧ Deserted testWorker s₁ 1 := by
  have run : groupManagement.foldlM (step testWatcher testWorker) init = some (tested groupManagement) := rfl
  have set : (tested groupManagement).watch () = .set ⟨false, true, false, 1⟩ := rfl
  exact ⟨run, set, (called_once testWorker_distinct ⟨groupManagement, List.prefix_refl _, run⟩ set).2 rfl⟩

/-- When a worker goes, all workers of the group have joined it, and the watch of the server is set. -/
def Orderly (watcher : ι → SGroupWatcher) (addr : ω → SGroupWorker) (events : List (SGroupEvent ι ω)) (i : ι) : Prop :=
  ∀ s e, Events.Comes (step watcher addr) init events s e → Removes addr s (watcher i).gid e →
    (∀ w, (addr w).sGroup = (watcher i).gid → (s.worker w).hasJoined = true) ∧ ∃ cb, s.watch i = .set cb

/-- Either no worker has gone, or all have joined, and one that is still there, or an event, will come to the callback. -/
def Stopping (watcher : ι → SGroupWatcher) (addr : ω → SGroupWorker) (i : ι) (s : SGroups ι ω) : Prop :=
  (∀ w, (addr w).sGroup = (watcher i).gid → (s.worker w).gone = false) ∧ (∀ cb, s.watch i = .set cb → cb.fn = true) ∨
    (∀ w, (addr w).sGroup = (watcher i).gid → (s.worker w).hasJoined = true) ∧ ∃ cb, s.watch i = .set cb ∧
      (cb.fn = false → ∀ w, (addr w).sGroup = (watcher i).gid → (s.worker w).gone = true) ∧
      (cb.fn = true → cb.event = true ∨ ∃ w, (addr w).sGroup = (watcher i).gid ∧ s.worker w = .joined)

theorem gone_hasJoined {phase : MemberPhase} (gone : phase.gone = true) : phase.hasJoined = true := by
  cases phase <;> first | rfl | cases gone

theorem gone_of_hasJoined {phase : MemberPhase} (past : phase.hasJoined = true) (out : phase ≠ .joined) : phase.gone = true := by
  cases phase <;> first | rfl | exact absurd rfl out | cases past

/-- One step of a run in which workers leave after all have joined. -/
theorem Stopping.step (stopping : Stopping watcher addr i s) (wf : Wf watcher addr s) {e : SGroupEvent ι ω}
    (orderly : Removes addr s (watcher i).gid e →
      (∀ w, (addr w).sGroup = (watcher i).gid → (s.worker w).hasJoined = true) ∧ ∃ cb, s.watch i = .set cb)
    (pass : SGroups.step watcher addr s e = some s') : Stopping watcher addr i s' := by
  have past : ∀ w, (s.worker w).hasJoined = true → (s'.worker w).hasJoined = true := by
    intro w before
    rcases step_worker pass w with same | ⟨not, -⟩ | ⟨-, gone, -⟩
    · rwa [same]
    · rw [before] at not
      cases not
    · exact gone_hasJoined gone
  have stays : ∀ w, (s.worker w).gone = true → (s'.worker w).gone = true := by
    intro w before
    rcases step_worker pass w with same | ⟨not, -⟩ | ⟨-, gone, -⟩
    · rwa [same]
    · rw [gone_hasJoined before] at not
      cases not
    · exact gone
  by_cases removes : Removes addr s (watcher i).gid e
  · -- a callback that has not been called has an event now
    obtain ⟨all, cb, set⟩ := orderly removes
    cases fn : cb.fn with
    | true =>
      obtain ⟨cb', set', fn', event⟩ := step_removed wf pass set fn removes
      refine .inr ⟨fun w group => past w (all w group), cb', set', fun off => ?_, fun _ => .inl event⟩
      rw [fn'] at off
      cases off
    | false =>
      rcases stopping with ⟨-, on⟩ | ⟨-, cb', set', called, -⟩
      · rw [on cb set] at fn
        cases fn
      · rw [set] at set'
        obtain rfl := WatchPhase.set.inj set'
        have done := called fn
        -- there is no worker that could go
        exfalso
        cases e with
        | leave w =>
          obtain ⟨joined, -, -⟩ := step_leave.mp pass
          have gone := done w removes
          rw [joined] at gone
          cases gone
        | close p =>
          obtain ⟨w, group, -, joined⟩ := removes
          have gone := done w group
          rw [joined] at gone
          cases gone
        | createGroup j => exact removes.elim
        | watchGroup j => exact removes.elim
        | join w => exact removes.elim
        | deliver j => exact removes.elim
        | interrupt j => exact removes.elim
  · have here : ∀ w, (addr w).sGroup = (watcher i).gid → s.worker w = .joined → s'.worker w = .joined := by
      intro w group joined
      rcases step_worker pass w with same | ⟨not, -⟩ | ⟨-, -, away⟩
      · rwa [same]
      · rw [joined] at not
        cases not
      · rw [group] at away
        exact absurd away removes
    rcases stopping with ⟨none, on⟩ | ⟨all, cb, set, called, next⟩
    · refine .inl ⟨fun w group => ?_, fun cb set => ?_⟩
      · rcases step_worker pass w with same | ⟨-, out⟩ | ⟨-, -, away⟩
        · rw [same]
          exact none w group
        · exact out
        · rw [group] at away
          exact absurd away removes
      · rcases step_watch pass i with (same | touched) | ⟨-, fresh⟩ | ⟨cb₀, set₀, event, -, rfl⟩
        · exact on cb (same ▸ set)
        · rw [touched] at set
          cases before : s.watch i with
          | set cb₀ =>
            rw [before] at set
            rw [← WatchPhase.set.inj set, RTCallback.touch_fn]
            exact on cb₀ before
          | start =>
            rw [before] at set
            cases set
          | created =>
            rw [before] at set
            cases set
        · exact (fresh cb set).1
        · rcases deliver_watch set₀ set with ⟨same, -⟩ | ⟨-, -, empty⟩
          · rw [same]
            exact on cb₀ set₀
          · obtain ⟨-, w, group, gone⟩ := deliver_deserted wf set₀ event empty
            rw [none w group] at gone
            cases gone
    · refine .inr ⟨fun w group => past w (all w group), ?_⟩
      rcases step_watch pass i with (same | touched) | ⟨unset, -⟩ | ⟨cb₀, set₀, event, -, rfl⟩
      · refine ⟨cb, same.trans set, fun off w group => stays w (called off w group), fun on => ?_⟩
        exact (next on).imp id fun ⟨w, group, joined⟩ => ⟨w, group, here w group joined⟩
      · refine ⟨cb.touch, by rw [touched, set]; rfl, fun off w group => ?_, fun on => ?_⟩
        · rw [RTCallback.touch_fn] at off
          exact stays w (called off w group)
        · rw [RTCallback.touch_fn] at on
          rw [RTCallback.touch_event]
          exact (next on).imp .inr fun ⟨w, group, joined⟩ => ⟨w, group, here w group joined⟩
      · exact absurd set (unset cb)
      · rw [set] at set₀
        obtain rfl := WatchPhase.set.inj set₀
        obtain ⟨children, there⟩ := wf.there i cb set
        unfold deliver
        cases fn : cb.fn with
        | false =>
          rw [if_neg (by simp)]
          refine ⟨_, Function.update_self _ _ _, fun _ w group => called fn w group, fun on => by cases on⟩
        | true =>
          rw [if_pos rfl, there]
          cases children with
          | nil =>
            obtain ⟨out, -⟩ := deliver_deserted wf set event there
            exact ⟨_, Function.update_self _ _ _, fun _ w group => gone_of_hasJoined (all w group) (out w group),
              fun on => by cases on⟩
          | cons node children =>
            obtain ⟨w, group, joined, -⟩ := wf.member _ _ there node List.mem_cons_self
            refine ⟨_, Function.update_self _ _ _, fun off => ?_, fun _ => .inr ⟨w, group, joined⟩⟩
            cases off

/-- **Where workers leave after all have joined, a server is told if and only if all have left**: its callback has not been
called as long as there is a worker to come or to leave, and when the last one has left it has been called, or the event
is on its way and `ChildChanges` will call it. -/
theorem called_iff (distinct : Distinct addr) (orderly : Orderly watcher addr events i) (member : ∃ w, (addr w).sGroup = (watcher i).gid)
    (h : Events.Reached (step watcher addr) init events s) (set : s.watch i = .set cb)
    (runs : s.stopped (watcher i).procs = false) :
    (cb.calls = 1 ∨ ∃ s' cb', step watcher addr s (.deliver i) = some s' ∧ s'.watch i = .set cb' ∧ cb'.calls = 1) ↔
      ∀ w, (addr w).sGroup = (watcher i).gid → (s.worker w).gone = true := by
  have wf := reached_wf distinct h
  have stopping : Stopping watcher addr i s :=
    Events.reached_inv (fun s => Wf watcher addr s ∧ Stopping watcher addr i s)
      ⟨wf_init, .inl ⟨fun w _ => rfl, fun cb set => by cases set⟩⟩
      (fun s e s' comes before pass => ⟨before.1.step distinct pass, before.2.step before.1 (orderly s e comes) pass⟩) h |>.2
  have once := wf.once i cb set
  constructor
  · rintro (done | ⟨s', cb', pass, set', done⟩) w group
    · rcases stopping with ⟨-, on⟩ | ⟨-, cb₁, set₁, called, -⟩
      · rw [on cb set] at once
        rw [once] at done
        cases done
      · rw [set] at set₁
        obtain rfl := WatchPhase.set.inj set₁
        refine called ?_ w group
        by_contra on
        rw [if_pos (by simpa using on)] at once
        rw [once] at done
        cases done
    · have once' := (wf.step distinct pass).once i cb' set'
      have off' : cb'.fn = false := by
        by_contra on
        rw [if_pos (by simpa using on)] at once'
        rw [once'] at done
        cases done
      obtain ⟨-, cb₁, set₁, event, rfl⟩ := step_deliver.mp pass
      rw [set] at set₁
      obtain rfl := WatchPhase.set.inj set₁
      have out : cb.fn = false ∨ Deserted addr s (watcher i).gid := by
        rcases deliver_watch set set' with ⟨same, -⟩ | ⟨-, -, empty⟩
        · exact .inl (same ▸ off')
        · exact .inr (deliver_deserted wf set event empty)
      rcases stopping with ⟨none, on⟩ | ⟨all, cb₂, set₂, called, -⟩
      · rcases out with off | ⟨-, w', group', gone⟩
        · rw [on cb set] at off
          cases off
        · rw [none w' group'] at gone
          cases gone
      · rw [set] at set₂
        obtain rfl := WatchPhase.set.inj set₂
        rcases out with off | ⟨out, -⟩
        · exact called off w group
        · exact gone_of_hasJoined (all w group) (out w group)
  · intro gone
    obtain ⟨w, group⟩ := member
    rcases stopping with ⟨none, -⟩ | ⟨-, cb₁, set₁, -, next⟩
    · have stays := gone w group
      rw [none w group] at stays
      cases stays
    · rw [set] at set₁
      obtain rfl := WatchPhase.set.inj set₁
      cases fn : cb.fn with
      | false =>
        rw [fn] at once
        exact .inl once
      | true =>
        have empty : s.nodes (groupName (watcher i).gid) = some [] := by
          obtain ⟨children, there⟩ := wf.there i cb set
          cases children with
          | nil => exact there
          | cons node children =>
            obtain ⟨w', group', joined, -⟩ := wf.member _ _ there node List.mem_cons_self
            have out := gone w' group'
            rw [joined] at out
            cases out
        rcases next fn with event | ⟨w', group', joined⟩
        · refine .inr ⟨s.deliver watcher i cb, ⟨false, true, false, cb.calls + 1⟩, ?_, ?_, ?_⟩
          · exact step_deliver.mpr ⟨runs, cb, set, event, rfl⟩
          · unfold deliver
            rw [if_pos fn, empty]
            exact Function.update_self _ _ _
          · rw [fn] at once
            rw [once]
            rfl
        · have out := gone w' group'
          rw [joined] at out
          cases out

theorem called_iff_groupManagement : (tested groupManagement).watch () = .set ⟨false, true, false, 1⟩ ∧
    ∀ w, (testWorker w).sGroup = 1 → ((tested groupManagement).worker w).gone = true := by
  have run : groupManagement.foldlM (step testWatcher testWorker) init = some (tested groupManagement) := rfl
  have set : (tested groupManagement).watch () = .set ⟨false, true, false, 1⟩ := rfl
  have orderly : Orderly testWatcher testWorker groupManagement () := by
    rintro s e ⟨done, ⟨rest, whole⟩, reach⟩ removes
    have place : done.length < groupManagement.length := by
      rw [← whole]
      simp
    have before : done = groupManagement.take done.length := by
      rw [← whole]
      simp
    have event : groupManagement[done.length]? = some e := by
      rw [← whole]
      simp
    rw [before] at reach
    generalize done.length = n at place event reach
    have here : tested (groupManagement.take n) = s := by
      unfold tested
      rw [reach]
      rfl
    rw [← here]
    have leaves : n = 5 ∨ n = 7 := by
      change n < 9 at place
      interval_cases n
      all_goals obtain rfl := Option.some.inj event
      all_goals first | exact removes.elim | decide
    rcases leaves with rfl | rfl
    all_goals exact ⟨by decide, _, rfl⟩
  exact ⟨set, (called_iff testWorker_distinct orderly ⟨false, rfl⟩ ⟨groupManagement, List.prefix_refl _, run⟩ set rfl).mp (.inl rfl)⟩

end SGroups
end Singa
