import Singa.Base.Events
import Singa.Utils.ClusterRt

/-!
# `utils/cluster_rt.cc`: processes that register together

`RegistProc` makes three requests; those of different processes and the ends of
sessions come in any order. A process id is the rank of the lock among the locks
that are there when they are listed. It stays the rank of the process until a
session with an earlier lock ends, and the next process to list its lock can
then be given an id that is in use: `CreateNode` does not tell.
-/

namespace Singa
set_option autoImplicit false

/-- How far a process is in `RegistProc`. -/
inductive RegistPhase where
  | start
  | locked (buf : List Char)
  | ranked (id : Int)
  | returned (id : Int)
  | ended
  deriving DecidableEq, Repr

/-- The id, once it is chosen. -/
def RegistPhase.id? : RegistPhase → Option Int
  | ranked id | returned id => some id
  | start | locked _ | ended => none

/-- Whether the process has a lock. -/
def RegistPhase.hasLock : RegistPhase → Bool
  | locked _ | ranked _ | returned _ => true
  | start | ended => false

/-- A request of `RegistProc` by process `p`, or the end of its session; `vt` is the answer of `GetChild`. -/
inductive RegistEvent where
  | lock (p : Nat)
  | list (p : Nat) (vt : List (List Char))
  | create (p : Nat)
  | close (p : Nat)
  deriving DecidableEq, Repr

/-- The processes of a job and their nodes. -/
structure Registry where
  zk : ZooKeeper
  phase : Nat → RegistPhase

def ZooKeeper.lockNames (zk : ZooKeeper) : List (List Char) := zk.locks.map ZNode.name

def ZooKeeper.procNames (zk : ZooKeeper) : List (List Char) := zk.procs.map ZNode.name

namespace Registry

def init : Registry := ⟨⟨0, [], []⟩, fun _ => .start⟩

def enter (s : Registry) (p : Nat) (phase : RegistPhase) : Registry :=
  { s with phase := Function.update s.phase p phase }

/-- The node in the lock folder. -/
def lock (job : Nat) (s : Registry) (p : Nat) : Registry :=
  { zk := s.zk.createLock p, phase := s.phase : Registry }.enter p
    (.locked (procLockPath job ++ '/' :: lockName s.zk.counter))

/-- The own position among the locks. -/
def list (job : Nat) (s : Registry) (p : Nat) (buf : List Char) (vt : List (List Char)) : Registry :=
  let id := ownPosition job buf vt
  s.enter p (if id = -1 then .returned (-1) else .ranked id)

/-- The node in the process folder. -/
def create (who : Nat → Identity) (s : Registry) (p : Nat) (id : Int) : Registry :=
  let answer := s.zk.createProc (procName id) (who p).content p
  { zk := answer.1, phase := s.phase : Registry }.enter p (.returned (if answer.2.created then id else -1))

/-- The end of the session. -/
def close (s : Registry) (p : Nat) : Registry :=
  { zk := s.zk.closeSession p, phase := s.phase : Registry }.enter p .ended

/-- One event; a request is made by a process that has come to it. -/
def step (job : Nat) (who : Nat → Identity) (s : Registry) : RegistEvent → Option Registry
  | .lock p =>
    match s.phase p with
    | .start => if s.zk.counter < ZooKeeper.maxCounter then some (s.lock job p) else none
    | _ => none
  | .list p vt =>
    match s.phase p with
    | .locked buf => if vt.Perm s.zk.lockNames then some (s.list job p buf vt) else none
    | _ => none
  | .create p =>
    match s.phase p with
    | .ranked id => some (s.create who p id)
    | _ => none
  | .close p =>
    match s.phase p with
    | .returned _ => some (s.close p)
    | _ => none

/-- The events from a new job on. -/
def run (job : Nat) (who : Nat → Identity) (events : List RegistEvent) : Option Registry :=
  events.foldlM (step job who) init

/-! ## Steps -/

section Steps

variable {job : Nat} {who : Nat → Identity} {s s' : Registry} {p q : Nat} {phase : RegistPhase}

@[simp] theorem enter_zk : (s.enter p phase).zk = s.zk := rfl

@[simp] theorem enter_self : (s.enter p phase).phase p = phase := by
  simp [enter]

theorem enter_other (other : q ≠ p) : (s.enter p phase).phase q = s.phase q := by
  simp [enter, other]

/-- What holds of the process that enters a phase and, before, of all others. -/
theorem enter_cases {P : Nat → RegistPhase → Prop} (here : P p phase) (others : ∀ q, q ≠ p → P q (s.phase q)) (q : Nat) :
    P q ((s.enter p phase).phase q) := by
  by_cases same : q = p
  · rw [same, enter_self]
    exact here
  · rw [enter_other same]
    exact others q same

theorem step_lock : step job who s (.lock p) = some s' ↔
    s.phase p = .start ∧ s.zk.counter < ZooKeeper.maxCounter ∧ s.lock job p = s' := by
  cases here : s.phase p <;> simp [step, here]

theorem step_list {vt : List (List Char)} : step job who s (.list p vt) = some s' ↔
    ∃ buf, s.phase p = .locked buf ∧ vt.Perm s.zk.lockNames ∧ s.list job p buf vt = s' := by
  cases here : s.phase p <;> simp [step, here]

theorem step_create : step job who s (.create p) = some s' ↔
    ∃ id, s.phase p = .ranked id ∧ s.create who p id = s' := by
  cases here : s.phase p <;> simp [step, here]

theorem step_close : step job who s (.close p) = some s' ↔ ∃ id, s.phase p = .returned id ∧ s.close p = s' := by
  cases here : s.phase p <;> simp [step, here]

end Steps
/-! ## What holds in every state -/

/-- Each process that has made its first request has one lock, its id is at least the rank of the lock, and the
process nodes are those of processes that returned. -/
structure Wf (job : Nat) (who : Nat → Identity) (s : Registry) : Prop where
  bound : s.zk.counter ≤ ZooKeeper.maxCounter
  named : ∀ l ∈ s.zk.locks, ∃ n < s.zk.counter, l.name = lockName n
  sorted : s.zk.lockNames.Pairwise (· < ·)
  owner : ∀ l ∈ s.zk.locks, ∀ m ∈ s.zk.locks, l.owner = m.owner → l = m
  hasLock : ∀ p, (s.phase p).hasLock = true ↔ ∃ l ∈ s.zk.locks, l.owner = p
  path : ∀ l ∈ s.zk.locks, ∀ buf, s.phase l.owner = .locked buf → buf = procLockPath job ++ '/' :: l.name
  rank_le : ∀ l ∈ s.zk.locks, ∀ id, (s.phase l.owner).id? = some id → (rank s.zk.lockNames l.name : Int) ≤ id
  nodes : ∀ n ∈ s.zk.procs, ∃ id,
    s.phase n.owner = .returned id ∧ n = ⟨procName id, (who n.owner).content, n.owner⟩

section Wf

variable {job : Nat} {who : Nat → Identity} {s s' : Registry} {p q : Nat} {l m : ZNode}

theorem wf_init : Wf job who init where
  bound := by decide
  named l mem := nomatch mem
  sorted := .nil
  owner l mem := nomatch mem
  hasLock p := by simp [init, RegistPhase.hasLock]
  path l mem := nomatch mem
  rank_le l mem := nomatch mem
  nodes n mem := nomatch mem

theorem mem_lockNames (mem : l ∈ s.zk.locks) : l.name ∈ s.zk.lockNames := List.mem_map_of_mem mem

namespace Wf

/-- A process has at most the lock of its name. -/
theorem name_ne (wf : Wf job who s) (hl : l ∈ s.zk.locks) (hm : m ∈ s.zk.locks) (other : l.owner ≠ m.owner) :
    l.name ≠ m.name := by
  intro same
  have nodup : s.zk.lockNames.Nodup := wf.sorted.imp ne_of_lt
  exact other (congrArg ZNode.owner (List.inj_on_of_nodup_map nodup hl hm same))

/-- The lock of a process in `RegistProc`. -/
theorem lock_of (wf : Wf job who s) {id : Int} (has : (s.phase p).id? = some id) : ∃ l ∈ s.zk.locks, l.owner = p := by
  refine (wf.hasLock p).mp ?_
  cases here : s.phase p
  all_goals
    rw [here] at has
    first | rfl | cases has

theorem lock (wf : Wf job who s) (first : s.phase p = .start) (room : s.zk.counter < ZooKeeper.maxCounter) :
    Wf job who (s.lock job p) := by
  have without : ∀ l ∈ s.zk.locks, l.owner ≠ p := by
    intro l mem own
    have has := (wf.hasLock p).mpr ⟨l, mem, own⟩
    rw [first] at has
    cases has
  have later : ∀ name ∈ s.zk.lockNames, name < lockName s.zk.counter := by
    intro name mem
    obtain ⟨l, hl, rfl⟩ := List.mem_map.mp mem
    obtain ⟨n, hn, named⟩ := wf.named l hl
    rw [named]
    exact lockName_lt hn (room.trans (by decide))
  have names : (s.lock job p).zk.lockNames = s.zk.lockNames ++ [lockName s.zk.counter] := List.map_append
  have mem_locks {l : ZNode} : l ∈ (s.lock job p).zk.locks ↔ l ∈ s.zk.locks ∨ l = ⟨lockName s.zk.counter, [], p⟩ :=
    List.mem_append.trans (or_congr_right List.mem_singleton)
  have other {l : ZNode} (mem : l ∈ s.zk.locks) : (s.lock job p).phase l.owner = s.phase l.owner :=
    enter_other (without l mem)
  have own : (s.lock job p).phase p = .locked (procLockPath job ++ '/' :: lockName s.zk.counter) := enter_self
  refine ⟨room, fun l mem => ?_, ?_, fun l hl m hm same => ?_, ?_, fun l mem buf at_lock => ?_,
    fun l mem id has => ?_, fun n mem => ?_⟩
  · rcases mem_locks.mp mem with mem | rfl
    · obtain ⟨n, hn, named⟩ := wf.named l mem
      exact ⟨n, Nat.lt_succ_of_lt hn, named⟩
    · exact ⟨s.zk.counter, Nat.lt_succ_self _, rfl⟩
  · rw [names]
    exact List.pairwise_append.mpr ⟨wf.sorted, List.pairwise_singleton _ _, by simpa using later⟩
  · rcases mem_locks.mp hl with hl | rfl <;> rcases mem_locks.mp hm with hm | rfl
    · exact wf.owner l hl m hm same
    · exact absurd same (without l hl)
    · exact absurd same.symm (without m hm)
    · rfl
  · refine enter_cases (P := fun q phase => phase.hasLock = true ↔ ∃ l ∈ (s.lock job p).zk.locks, l.owner = q) ?_
      fun q different => ?_
    · simp only [RegistPhase.hasLock, true_iff]
      exact ⟨_, mem_locks.mpr (.inr rfl), rfl⟩
    · refine (wf.hasLock q).trans ⟨fun ⟨l, mem, at_q⟩ => ⟨l, mem_locks.mpr (.inl mem), at_q⟩, ?_⟩
      rintro ⟨l, mem, at_q⟩
      rcases mem_locks.mp mem with mem | rfl
      · exact ⟨l, mem, at_q⟩
      · exact absurd at_q.symm different
  · rcases mem_locks.mp mem with mem | rfl
    · rw [other mem] at at_lock
      exact wf.path l mem buf at_lock
    · rw [own] at at_lock
      exact (RegistPhase.locked.inj at_lock).symm
  · rcases mem_locks.mp mem with mem | rfl
    · rw [other mem] at has
      rw [names, rank_concat (later _ (mem_lockNames mem)).le]
      exact wf.rank_le l mem id has
    · rw [own] at has
      cases has
  · obtain ⟨id, returned, whole⟩ := wf.nodes n mem
    refine ⟨id, ?_, whole⟩
    rw [← returned]
    refine enter_other ?_
    rintro rfl
    rw [first] at returned
    cases returned

/-- The request for the children answers with the rank of the own lock. -/
theorem list_eq (wf : Wf job who s) {buf : List Char} (locked : s.phase p = .locked buf) {vt : List (List Char)}
    (perm : vt.Perm s.zk.lockNames) :
    ∃ l ∈ s.zk.locks, l.owner = p ∧ s.list job p buf vt = s.enter p (.ranked (rank s.zk.lockNames l.name)) := by
  obtain ⟨l, mem, own⟩ := (wf.hasLock p).mp (by rw [locked]; rfl)
  have path := wf.path l mem buf (own ▸ locked)
  refine ⟨l, mem, own, ?_⟩
  unfold Registry.list
  rw [path, ownPosition_rank perm wf.sorted (mem_lockNames mem)]
  dsimp only
  rw [if_neg (by omega)]

/-- A phase with a lock is entered. -/
theorem enter (wf : Wf job who s) {phase : RegistPhase} (before : (s.phase p).hasLock = true)
    (after : phase.hasLock = true) (unlocked : ∀ buf, phase ≠ .locked buf)
    (rank_le : ∀ l ∈ s.zk.locks, l.owner = p → ∀ id, phase.id? = some id → (rank s.zk.lockNames l.name : Int) ≤ id)
    (early : ∀ id, s.phase p ≠ .returned id) : Wf job who (s.enter p phase) := by
  refine ⟨wf.bound, wf.named, wf.sorted, wf.owner, ?_, fun l mem buf at_lock => ?_, fun l mem id has => ?_,
    fun n mem => ?_⟩
  · refine enter_cases (P := fun q phase => phase.hasLock = true ↔ ∃ l ∈ s.zk.locks, l.owner = q) ?_
      fun q _ => wf.hasLock q
    rw [after]
    exact ⟨fun _ => (wf.hasLock p).mp before, fun _ => rfl⟩
  · by_cases same : l.owner = p
    · rw [same, enter_self] at at_lock
      exact absurd at_lock (unlocked buf)
    · rw [enter_other same] at at_lock
      exact wf.path l mem buf at_lock
  · by_cases same : l.owner = p
    · rw [same, enter_self] at has
      exact rank_le l mem same id has
    · rw [enter_other same] at has
      exact wf.rank_le l mem id has
  · obtain ⟨id, returned, whole⟩ := wf.nodes n mem
    refine ⟨id, ?_, whole⟩
    rw [← returned]
    refine enter_other fun same => ?_
    rw [same] at returned
    exact early id returned

theorem list (wf : Wf job who s) {buf : List Char} (locked : s.phase p = .locked buf) {vt : List (List Char)}
    (perm : vt.Perm s.zk.lockNames) : Wf job who (s.list job p buf vt) := by
  obtain ⟨l, mem, own, answer⟩ := wf.list_eq locked perm
  rw [answer]
  refine wf.enter (by rw [locked]; rfl) rfl nofun (fun m hm at_p id has => ?_) (by rw [locked]; nofun)
  rw [wf.owner m hm l mem (at_p.trans own.symm)]
  exact (Option.some.inj has).le

theorem create (wf : Wf job who s) {id : Int} (ranked : s.phase p = .ranked id) : Wf job who (s.create who p id) := by
  have wf' : Wf job who (s.enter p (.returned id)) := by
    refine wf.enter (by rw [ranked]; rfl) rfl nofun (fun l hl at_p i has => ?_) (by rw [ranked]; nofun)
    obtain rfl : id = i := Option.some.inj has
    exact wf.rank_le l hl id (by rw [at_p, ranked]; rfl)
  unfold Registry.create ZooKeeper.createProc
  split
  · exact wf'
  · refine ⟨wf'.bound, wf'.named, wf'.sorted, wf'.owner, wf'.hasLock, wf'.path, wf'.rank_le, fun n mem => ?_⟩
    rcases List.mem_append.mp mem with mem | mem
    · exact wf'.nodes n mem
    · rw [List.mem_singleton.mp mem]
      exact ⟨id, enter_self, rfl⟩

theorem close (wf : Wf job who s) (p : Nat) : Wf job who (s.close p) := by
  have mem_locks {l : ZNode} : l ∈ (s.close p).zk.locks ↔ l ∈ s.zk.locks ∧ l.owner ≠ p := by
    simp [Registry.close, ZooKeeper.closeSession]
  have mem_procs {n : ZNode} : n ∈ (s.close p).zk.procs ↔ n ∈ s.zk.procs ∧ n.owner ≠ p := by
    simp [Registry.close, ZooKeeper.closeSession]
  have sub : (s.close p).zk.lockNames.Sublist s.zk.lockNames := List.filter_sublist.map ZNode.name
  have other {q : Nat} (different : q ≠ p) : (s.close p).phase q = s.phase q := enter_other different
  refine ⟨wf.bound, fun l mem => wf.named l (mem_locks.mp mem).1, wf.sorted.sublist sub, fun l hl m hm => ?_, ?_,
    fun l mem buf at_lock => ?_, fun l mem id has => ?_, fun n mem => ?_⟩
  · exact wf.owner l (mem_locks.mp hl).1 m (mem_locks.mp hm).1
  · refine enter_cases (P := fun q phase => phase.hasLock = true ↔ ∃ l ∈ (s.close p).zk.locks, l.owner = q) ?_
      fun q different => ?_
    · constructor
      · intro ended
        cases ended
      · rintro ⟨l, mem, own⟩
        exact absurd own (mem_locks.mp mem).2
    · refine (wf.hasLock q).trans ⟨?_, fun ⟨l, mem, own⟩ => ⟨l, (mem_locks.mp mem).1, own⟩⟩
      rintro ⟨l, mem, own⟩
      exact ⟨l, mem_locks.mpr ⟨mem, own ▸ different⟩, own⟩
  · obtain ⟨mem, different⟩ := mem_locks.mp mem
    rw [other different] at at_lock
    exact wf.path l mem buf at_lock
  · obtain ⟨mem, different⟩ := mem_locks.mp mem
    rw [other different] at has
    have fewer := rank_sublist sub l.name
    have bound := wf.rank_le l mem id has
    omega
  · obtain ⟨mem, different⟩ := mem_procs.mp mem
    rw [other different]
    exact wf.nodes n mem

theorem step (wf : Wf job who s) {e : RegistEvent} (h : Registry.step job who s e = some s') : Wf job who s' := by
  cases e with
  | lock p =>
    obtain ⟨first, room, rfl⟩ := step_lock.mp h
    exact wf.lock first room
  | list p vt =>
    obtain ⟨buf, locked, perm, rfl⟩ := step_list.mp h
    exact wf.list locked perm
  | create p =>
    obtain ⟨id, ranked, rfl⟩ := step_create.mp h
    exact wf.create ranked
  | close p =>
    obtain ⟨id, -, rfl⟩ := step_close.mp h
    exact wf.close p

end Wf
end Wf

/-! ## Runs -/

/-- `s` is a state of the run. -/
def Reached (job : Nat) (who : Nat → Identity) (events : List RegistEvent) (s : Registry) : Prop :=
  Events.Reached (step job who) init events s

/-- Event `e` of the run comes in state `s`. -/
def Comes (job : Nat) (who : Nat → Identity) (events : List RegistEvent) (s : Registry) (e : RegistEvent) : Prop :=
  Events.Comes (step job who) init events s e

/-- The live processes have different ids, and their hosts are found. -/
structure Right (who : Nat → Identity) (s : Registry) : Prop where
  unique : ∀ p q id, s.phase p = .returned id → s.phase q = .returned id → p = q
  host : ∀ p id, s.phase p = .returned id → getProcHost s.zk id = .ok (who p).hostAddr

/-- No node is requested that is there. -/
def Fresh (job : Nat) (who : Nat → Identity) (events : List RegistEvent) : Prop :=
  ∀ s p id, Comes job who events s (.create p) → s.phase p = .ranked id → procName id ∉ s.zk.procNames

/-- The processes with an id and a lock before that of `p` still have as many locks before their own as the id
says: no session with one of these has ended. -/
def Steady (s : Registry) (p : Nat) : Prop :=
  ∀ l ∈ s.zk.locks, ∀ m ∈ s.zk.locks, m.owner = p → l.name < m.name →
    ∀ id, (s.phase l.owner).id? = some id → id = rank s.zk.lockNames l.name

section Runs

variable {job : Nat} {who : Nat → Identity} {s s' : Registry} {p q : Nat} {events : List RegistEvent}

theorem Reached.wf (h : Reached job who events s) : Wf job who s :=
  Events.reached_inv (Wf job who) wf_init (fun _ _ _ _ wf => wf.step) h

/-! ## Nodes that are not there yet -/

/-- Every process that returned has the node of its id. -/
structure Registered (who : Nat → Identity) (s : Registry) : Prop where
  nodup : s.zk.procNames.Nodup
  node : ∀ p id, s.phase p = .returned id → ⟨procName id, (who p).content, p⟩ ∈ s.zk.procs

theorem Registered.right (reg : Registered who s) : Right who s := by
  refine ⟨fun p q id hp hq => ?_, fun p id hp => ?_⟩
  · exact congrArg ZNode.owner (List.inj_on_of_nodup_map reg.nodup (reg.node p id hp) (reg.node q id hq) rfl)
  · have mem := reg.node p id hp
    cases found : s.zk.procs.find? (·.name == procName id) with
    | none => exact absurd (List.find?_eq_none.mp found _ mem) (by simp)
    | some n =>
      have name := List.find?_some found
      have same : n = ⟨procName id, (who p).content, p⟩ :=
        List.inj_on_of_nodup_map reg.nodup (List.mem_of_find?_eq_some found) mem (beq_iff_eq.mp name)
      exact getProcHost_content (same ▸ found)

/-- Entering a phase before the end of `RegistProc` keeps what is registered. -/
theorem Registered.enter (reg : Registered who s) {phase : RegistPhase} (early : ∀ id, phase ≠ .returned id) :
    Registered who (s.enter p phase) := by
  refine ⟨reg.nodup, fun q id returned => ?_⟩
  by_cases same : q = p
  · rw [same, enter_self] at returned
    exact absurd returned (early id)
  · rw [enter_other same] at returned
    exact reg.node q id returned

theorem Registered.create (reg : Registered who s) {id : Int} (fresh : procName id ∉ s.zk.procNames) :
    Registered who (s.create who p id) := by
  have answer : s.zk.createProc (procName id) (who p).content p =
      ({ s.zk with procs := s.zk.procs ++ [⟨procName id, (who p).content, p⟩] }, .ok) := if_neg fresh
  unfold Registry.create
  rw [answer]
  refine ⟨?_, fun q i returned => ?_⟩
  · show (List.map ZNode.name (s.zk.procs ++ [_])).Nodup
    rw [List.map_append, List.map_singleton, ← List.concat_eq_append]
    exact reg.nodup.concat fresh
  · by_cases same : q = p
    · rw [same, enter_self] at returned
      obtain rfl : id = i := RegistPhase.returned.inj returned
      rw [same]
      exact List.mem_append_right _ (List.mem_singleton.mpr rfl)
    · rw [enter_other same] at returned
      exact List.mem_append_left _ (reg.node q i returned)

theorem Registered.close (reg : Registered who s) (p : Nat) : Registered who (s.close p) := by
  refine ⟨reg.nodup.sublist (List.filter_sublist.map ZNode.name), fun q id returned => ?_⟩
  by_cases same : q = p
  · rw [same] at returned
    cases enter_self.symm.trans returned
  · refine List.mem_filter.mpr ⟨reg.node q id ((enter_other same).symm.trans returned), ?_⟩
    exact decide_eq_true same

theorem Fresh.registered (fresh : Fresh job who events) (h : Reached job who events s) : Registered who s := by
  refine (Events.reached_inv (fun s => Wf job who s ∧ Registered who s) ⟨wf_init, .nil, nofun⟩ ?_ h).2
  rintro s e s' comes ⟨wf, reg⟩ pass
  refine ⟨wf.step pass, ?_⟩
  cases e with
  | lock p =>
    obtain ⟨-, -, rfl⟩ := step_lock.mp pass
    have reg' : Registered who ⟨s.zk.createLock p, s.phase⟩ := ⟨reg.nodup, reg.node⟩
    exact reg'.enter nofun
  | list p vt =>
    obtain ⟨buf, locked, perm, rfl⟩ := step_list.mp pass
    obtain ⟨l, -, -, answer⟩ := wf.list_eq locked perm
    rw [answer]
    exact reg.enter nofun
  | create p =>
    obtain ⟨id, ranked, rfl⟩ := step_create.mp pass
    exact reg.create (fresh s p id comes ranked)
  | close p =>
    obtain ⟨id, -, rfl⟩ := step_close.mp pass
    exact reg.close p

/-- A node that is there belongs to a live process with the same id. -/
theorem Wf.returned_of_node (wf : Wf job who s) {id : Int} (there : procName id ∈ s.zk.procNames) :
    ∃ q, s.phase q = .returned id := by
  obtain ⟨n, mem, name⟩ := List.mem_map.mp there
  obtain ⟨i, returned, whole⟩ := wf.nodes n mem
  have same : procName i = procName id := by
    rw [← name, whole]
  exact ⟨n.owner, procName_injective same ▸ returned⟩

/-- A request for a node that is there gives its id to a second process. -/
theorem fresh_of_right (right : ∀ s, Reached job who events s → Right who s) : Fresh job who events := by
  intro s p id comes ranked there
  obtain ⟨q, returned⟩ := (Reached.wf comes.reached).returned_of_node there
  have other : q ≠ p := by
    rintro rfl
    rw [ranked] at returned
    cases returned
  have after := right (s.create who p id) (comes.next (step_create.mpr ⟨id, ranked, rfl⟩))
  have first : (s.create who p id).phase p = .returned id := by
    refine enter_self.trans ?_
    cases (s.zk.createProc (procName id) (who p).content p).2 <;> rfl
  exact other (after.unique q p id ((enter_other other).trans returned) first)

/-! ## Sessions that end -/

/-- The ids chosen so far are different. -/
def Distinct (s : Registry) : Prop :=
  ∀ p q id, (s.phase p).id? = some id → (s.phase q).id? = some id → p = q

/-- A phase is entered with an id that no other process has, if any. -/
theorem Distinct.enter (dist : Distinct s) {phase : RegistPhase}
    (new : ∀ q, q ≠ p → ∀ id, phase.id? = some id → (s.phase q).id? ≠ some id) : Distinct (s.enter p phase) := by
  intro q r id hq hr
  by_cases first : q = p <;> by_cases second : r = p
  · rw [first, second]
  · rw [first, enter_self] at hq
    rw [enter_other second] at hr
    exact absurd hr (new r second id hq)
  · rw [second, enter_self] at hr
    rw [enter_other first] at hq
    exact absurd hq (new q first id hr)
  · rw [enter_other first] at hq
    rw [enter_other second] at hr
    exact dist q r id hq hr

/-- The rank that is read is not the id of another process. -/
theorem Steady.rank_ne (steady : s.Steady p) (wf : Wf job who s) {m : ZNode} (hm : m ∈ s.zk.locks)
    (own : m.owner = p) (other : q ≠ p) : (s.phase q).id? ≠ some (rank s.zk.lockNames m.name : Int) := by
  intro has
  obtain ⟨l, hl, rfl⟩ := wf.lock_of has
  have apart := wf.name_ne hl hm (own.symm ▸ other)
  rcases lt_or_gt_of_ne apart with before | behind
  · -- the other process still has the rank of an earlier lock
    have current := steady l hl m hm own before _ has
    have less := rank_lt (mem_lockNames hl) before
    omega
  · have bound := wf.rank_le l hl _ has
    have less := rank_lt (mem_lockNames hm) behind
    omega

theorem distinct_of_steady (steady : ∀ s p vt, Comes job who events s (.list p vt) → s.Steady p)
    (h : Reached job who events s) : Distinct s := by
  refine (Events.reached_inv (fun s => Wf job who s ∧ Distinct s) ⟨wf_init, nofun⟩ ?_ h).2
  rintro s e s' comes ⟨wf, dist⟩ pass
  refine ⟨wf.step pass, ?_⟩
  cases e with
  | lock p =>
    obtain ⟨-, -, rfl⟩ := step_lock.mp pass
    have dist' : Distinct ⟨s.zk.createLock p, s.phase⟩ := dist
    exact dist'.enter nofun
  | list p vt =>
    obtain ⟨buf, locked, perm, rfl⟩ := step_list.mp pass
    obtain ⟨l, hl, own, answer⟩ := wf.list_eq locked perm
    rw [answer]
    refine dist.enter fun q other id chosen => ?_
    obtain rfl := Option.some.inj chosen
    exact (steady s p vt comes).rank_ne wf hl own other
  | create p =>
    obtain ⟨id, ranked, rfl⟩ := step_create.mp pass
    have dist' : Distinct ⟨(s.zk.createProc (procName id) (who p).content p).1, s.phase⟩ := dist
    refine dist'.enter fun q other i chosen has => other ?_
    have same : (s.phase p).id? = some i := by
      rw [ranked, ← chosen]
      cases (s.zk.createProc (procName id) (who p).content p).2 <;> rfl
    exact dist q p i has same
  | close p =>
    obtain ⟨id, -, rfl⟩ := step_close.mp pass
    have dist' : Distinct ⟨s.zk.closeSession p, s.phase⟩ := dist
    exact dist'.enter nofun

theorem fresh_of_steady (steady : ∀ s p vt, Comes job who events s (.list p vt) → s.Steady p) :
    Fresh job who events := by
  intro s p id comes ranked there
  obtain ⟨q, returned⟩ := (Reached.wf comes.reached).returned_of_node there
  have same : q = p := distinct_of_steady steady comes.reached q p id (by rw [returned]; rfl) (by rw [ranked]; rfl)
  rw [same, ranked] at returned
  cases returned

end Runs

/-- **Process ids**: they are unique among the live processes, and lead to their hosts, in every state of a run if
and only if no node is requested that is there; and none is when the locks are listed only while the processes in
front still have the ranks they were given. -/
theorem run_right_iff (job : Nat) (who : Nat → Identity) (events : List RegistEvent) :
    ((∀ s, Reached job who events s → Right who s) ↔ Fresh job who events) ∧
      ((∀ s p vt, Comes job who events s (.list p vt) → s.Steady p) → Fresh job who events) :=
  ⟨⟨fresh_of_right, fun fresh _ h => (fresh.registered h).right⟩, fresh_of_steady⟩

/-- Process 0 registers, then 1; 0 ends, and 2 registers. -/
def leaving : List RegistEvent :=
  [.lock 0, .list 0 [lockName 0], .create 0, .lock 1, .list 1 [lockName 0, lockName 1], .create 1, .close 0,
    .lock 2, .list 2 [lockName 2, lockName 1], .create 2]

/-- Both 1 and 2 are process 1. -/
theorem leaving_not_right : ¬ ∀ (job : Nat) (who : Nat → Identity) (events : List RegistEvent) (s : Registry),
    Reached job who events s → Right who s := by
  intro right
  let who (p : Nat) : Identity := .ofEndpoint 10 0 0 (Fin.ofNat 256 p) 5000 77
  have ids : (run 0 who leaving).map (fun s => (s.phase 1, s.phase 2)) = some (.returned 1, .returned 1) := by
    decide +kernel
  obtain ⟨s, reach, phases⟩ := Option.map_eq_some_iff.mp ids
  obtain ⟨first, second⟩ := Prod.mk.inj phases
  have same := (right 0 who leaving s ⟨leaving, List.prefix_rfl, reach⟩).unique 1 2 1 first second
  omega

end Registry
end Singa
