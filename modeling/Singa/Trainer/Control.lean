import Mathlib.Data.List.Count
import Mathlib.Data.List.Nodup
import Singa.Trainer.Groups

/-!
# The control flow of the updates

The update protocol of one parameter without the contents of its messages: the
versions and counters of the entries of the worker groups, the counters and
buffers of the slices at their servers, and the messages in flight. A handler
that fails one of its checks has no next state. `Wf` holds of every state
reached, for any number of groups: a slice is pending for an entry exactly while
its request or the response to it is under way, and the shares of an entry wait
from their update on until the version has moved.
-/

namespace Singa
set_option autoImplicit false

/-- The parts of the worker groups, the number of slices, and `num_total` at the servers. -/
structure Plan where
  parts : List GroupPart
  slices : Nat
  total : Int

/-- The messages, by the part and the slice they belong to. -/
inductive Signal where
  | worker (e : GroupPart)
  | request (e : GroupPart) (idx : Nat)
  | response (e : GroupPart) (idx : Nat) (version : Int)
  deriving DecidableEq

/-! ## The entry of a part -/

/-- `version()`, the `local_version()` of every share, and the counters. -/
structure Seat where
  version : Int
  localVersions : List Int
  numUpdate : Int
  pending : List Bool
  numPending : Int

namespace Seat

/-- A share sends its update. -/
def update (seat : Seat) (share : Nat) : Seat :=
  { seat with localVersions := seat.localVersions.set share seat.version }

/-- The stub waits for other shares. -/
def wait (seat : Seat) : Seat := { seat with numUpdate := seat.numUpdate + 1 }

/-- The stub requests all slices. -/
def request (seat : Seat) (slices : Nat) : Seat :=
  { seat with
    numUpdate := 0
    pending := List.replicate slices true
    numPending := seat.numPending + slices }

/-- The stub parses a response. -/
def parse (seat : Seat) (slices idx : Nat) (version : Int) : Seat :=
  { seat with
    pending := seat.pending.set idx false
    numPending := seat.numPending - 1
    version := if (seat.numPending - 1) % slices = 0 then version else seat.version }

/-- How many messages for the slice are under way: one while it is pending. -/
def owed (seat : Seat) (idx : Nat) : Nat := if seat.pending[idx]? = some true then 1 else 0

section Owed

variable {seat : Seat} {slices idx idx' : Nat}

@[simp] theorem owed_update (share : Nat) : (seat.update share).owed idx = seat.owed idx := rfl

@[simp] theorem owed_wait : seat.wait.owed idx = seat.owed idx := rfl

theorem owed_request (lt : idx < slices) : (seat.request slices).owed idx = 1 := by
  simp [owed, request, lt]

theorem owed_le_one : seat.owed idx ≤ 1 := by
  unfold owed
  split <;> omega

theorem owed_idle (idle : true ∉ seat.pending) : seat.owed idx = 0 :=
  if_neg fun waits => idle (List.mem_of_getElem? waits)

theorem owed_parse_self (version : Int) : (seat.parse slices idx version).owed idx = 0 := by
  refine if_neg fun waits => ?_
  rw [parse, List.getElem?_set_self'] at waits
  simp at waits

theorem owed_parse_other (other : idx' ≠ idx) (version : Int) :
    (seat.parse slices idx version).owed idx' = seat.owed idx' := by
  rw [owed, parse, List.getElem?_set_ne (Ne.symm other), owed]

end Owed

/-- All shares have sent their update and wait for the version to move. -/
structure Waiting (seat : Seat) (workers : Nat) : Prop where
  numUpdate : seat.numUpdate = 0
  workers : workers = 0
  sent : ∃ v, seat.version ≤ v ∧ ∀ l ∈ seat.localVersions, l = v

/-- Some shares have sent their update, and the stub waits for the others. -/
structure Open (seat : Seat) (workers : Nat) : Prop where
  pending : true ∉ seat.pending
  le : ∀ l ∈ seat.localVersions, l ≤ seat.version
  count : (seat.localVersions.count seat.version : Int) = seat.numUpdate + workers

/-- The entry of the part `e`, when `workers` updates of its shares are in flight. -/
structure Ok (slices : Nat) (e : GroupPart) (workers : Nat) (seat : Seat) : Prop where
  shares : (seat.localVersions.length : Int) = e.numLocal
  nonneg : 0 ≤ seat.numUpdate
  few : seat.numUpdate < e.numLocal
  flags : seat.pending.length = slices
  numPending : seat.numPending = seat.pending.count true
  phase : seat.Waiting workers ∨ seat.Open workers

namespace Ok

variable {slices workers share idx : Nat} {e : GroupPart} {seat : Seat} {l : Int}

theorem isOpen_of_lt (ok : seat.Ok slices e workers) (mem : l ∈ seat.localVersions) (moved : l < seat.version) :
    seat.Open workers := by
  rcases ok.phase with waiting | free
  · obtain ⟨v, le, same⟩ := waiting.sent
    have := same l mem
    omega
  · exact free

theorem isOpen_of_worker (ok : seat.Ok slices e (workers + 1)) : seat.Open (workers + 1) := by
  rcases ok.phase with waiting | free
  · exact absurd waiting.workers (Nat.succ_ne_zero workers)
  · exact free

theorem waiting_of_pending (ok : seat.Ok slices e workers) (waits : seat.pending[idx]? = some true) :
    seat.Waiting workers := by
  rcases ok.phase with waiting | free
  · exact waiting
  · exact absurd (List.mem_of_getElem? waits) free.pending

theorem update (ok : seat.Ok slices e workers) (here : seat.localVersions[share]? = some l)
    (moved : l < seat.version) : (seat.update share).Ok slices e (workers + 1) := by
  have free := ok.isOpen_of_lt (List.mem_of_getElem? here) moved
  obtain ⟨bound, value⟩ := List.getElem?_eq_some_iff.mp here
  refine ⟨by simpa [Seat.update] using ok.shares, ok.nonneg, ok.few, ok.flags, ok.numPending, .inr ⟨free.pending, ?_, ?_⟩⟩
  · intro l' mem
    rcases List.mem_or_eq_of_mem_set mem with mem | rfl
    · exact free.le l' mem
    · exact le_refl _
  · have more : (seat.localVersions.set share seat.version).count seat.version =
        seat.localVersions.count seat.version + 1 := by
      rw [List.count_set bound, value]
      simp [moved.ne]
    have count := free.count
    simp only [Seat.update, more]
    push_cast
    omega

theorem wait (ok : seat.Ok slices e (workers + 1)) (few : seat.numUpdate + 1 < e.numLocal) :
    seat.wait.Ok slices e workers := by
  have free := ok.isOpen_of_worker
  have count := free.count
  refine ⟨ok.shares, Int.le_trans ok.nonneg (Int.le_add_one (le_refl _)), few, ok.flags, ok.numPending,
    .inr ⟨free.pending, free.le, ?_⟩⟩
  simp only [Seat.wait]
  push_cast at count
  omega

/-- At the last share there is no other update in flight, and all shares wait for the same version. -/
theorem all_sent (ok : seat.Ok slices e (workers + 1)) (full : e.numLocal ≤ seat.numUpdate + 1) :
    workers = 0 ∧ ∀ l ∈ seat.localVersions, l = seat.version := by
  have count := ok.isOpen_of_worker.count
  have shares := ok.shares
  have le := List.count_le_length (a := seat.version) (l := seat.localVersions)
  push_cast at count
  have all : seat.localVersions.count seat.version = seat.localVersions.length := by omega
  refine ⟨by omega, fun l mem => ?_⟩
  exact (List.count_eq_length.mp all l mem).symm

theorem request (ok : seat.Ok slices e (workers + 1)) (full : e.numLocal ≤ seat.numUpdate + 1) :
    (seat.request slices).Ok slices e workers := by
  obtain ⟨last, sent⟩ := ok.all_sent full
  have nonneg := ok.nonneg
  have few := ok.few
  have none : seat.pending.count true = 0 := List.count_eq_zero.mpr ok.isOpen_of_worker.pending
  refine ⟨ok.shares, le_refl 0, Int.lt_of_le_of_lt nonneg few, List.length_replicate, ?_,
    .inl ⟨rfl, last, seat.version, le_refl _, sent⟩⟩
  simp [Seat.request, ok.numPending, none]

/-- Fewer slices are pending after a response. -/
theorem count_parse (waits : seat.pending[idx]? = some true) :
    seat.pending.count true = (seat.pending.set idx false).count true + 1 := by
  obtain ⟨bound, value⟩ := List.getElem?_eq_some_iff.mp waits
  have some : 0 < seat.pending.count true := List.count_pos_iff.mpr (List.mem_of_getElem? waits)
  rw [List.count_set bound, value]
  simp
  omega

/-- The count comes down to a multiple of the number of slices at the last response only. -/
theorem last_iff (ok : seat.Ok slices e workers) (waits : seat.pending[idx]? = some true) :
    (seat.numPending - 1) % slices = 0 ↔ true ∉ seat.pending.set idx false := by
  have split := count_parse waits
  have le := List.count_le_length (a := true) (l := seat.pending)
  have count := ok.numPending
  have flags := ok.flags
  rw [← List.count_eq_zero]
  have rest : seat.numPending - 1 = ((seat.pending.set idx false).count true : Int) := by omega
  rw [rest, ← Int.natCast_mod, Int.natCast_eq_zero, Nat.mod_eq_of_lt (by omega)]

theorem parse (ok : seat.Ok slices e workers) (waits : seat.pending[idx]? = some true) (version : Int) :
    (seat.parse slices idx version).Ok slices e workers := by
  have waiting := ok.waiting_of_pending waits
  have last := ok.last_iff waits
  have split := count_parse waits
  obtain ⟨v, le, sent⟩ := waiting.sent
  refine ⟨ok.shares, ok.nonneg, ok.few, by simpa [Seat.parse] using ok.flags, ?_, ?_⟩
  · simp only [Seat.parse, ok.numPending]
    omega
  · by_cases done : (seat.numPending - 1) % slices = 0
    · by_cases moved : v < version
      · refine .inr ⟨last.mp done, ?_, ?_⟩
        · intro l mem
          simp only [Seat.parse, done, if_true]
          have := sent l mem
          omega
        · have none : seat.localVersions.count version = 0 := by
            rw [List.count_eq_zero]
            intro mem
            have := sent version mem
            omega
          simp only [Seat.parse, done, if_true, none, waiting.numUpdate, waiting.workers]
          rfl
      · refine .inl ⟨waiting.numUpdate, waiting.workers, v, ?_, sent⟩
        simp only [Seat.parse, done, if_true]
        omega
    · refine .inl ⟨waiting.numUpdate, waiting.workers, v, ?_, sent⟩
      simpa only [Seat.parse, done, if_false] using le

/-- The last response moves the version when it is newer than what the shares recorded. -/
theorem parse_isOpen (ok : seat.Ok slices e workers) (waits : seat.pending[idx]? = some true) {version : Int}
    (newer : ∀ l ∈ seat.localVersions, l < version) (idle : true ∉ (seat.parse slices idx version).pending) :
    (seat.parse slices idx version).Open workers := by
  have last := (ok.last_iff waits).mpr idle
  have some : 0 < seat.localVersions.length := by
    have shares := ok.shares
    have nonneg := ok.nonneg
    have few := ok.few
    omega
  obtain ⟨l, mem⟩ := List.exists_mem_of_length_pos some
  refine (ok.parse waits version).isOpen_of_lt mem ?_
  simpa [Seat.parse, last] using newer l mem

end Ok
end Seat

/-! ## All entries, slices and messages -/

/-- A slice at its server: `local_version()`, the count of shares and who sent the buffered requests. -/
structure Desk where
  version : Int
  numUpdate : Int
  buffer : List GroupPart

structure Control where
  seats : GroupPart → Seat
  desks : Nat → Desk
  net : List Signal

namespace Control

def setSeat (a : Control) (e : GroupPart) (seat : Seat) : Control :=
  { a with seats := Function.update a.seats e seat }

def setDesk (a : Control) (idx : Nat) (desk : Desk) : Control := { a with desks := Function.update a.desks idx desk }

def send (a : Control) (out : List Signal) : Control := { a with net := a.net ++ out }

/-- The message `signal` is about to arrive. -/
def before (a : Control) (signal : Signal) : Control := { a with net := signal :: a.net }

section Fields

variable (a : Control) (e e' : GroupPart) (idx idx' : Nat) (seat : Seat) (desk : Desk) (out : List Signal)
  (signal : Signal)

@[simp] theorem before_seats : (a.before signal).seats = a.seats := rfl

@[simp] theorem before_desks : (a.before signal).desks = a.desks := rfl

@[simp] theorem before_net : (a.before signal).net = signal :: a.net := rfl

@[simp] theorem setSeat_seats : (a.setSeat e seat).seats e' = if e' = e then seat else a.seats e' :=
  Function.update_apply ..

/-- What an entry keeps, all entries keep. -/
theorem setSeat_same {β : Type} (f : Seat → β) {a : Control} {e : GroupPart} {seat : Seat} (same : f seat = f (a.seats e))
    (e' : GroupPart) : f ((a.setSeat e seat).seats e') = f (a.seats e') := by
  by_cases here : e' = e
  · rw [setSeat_seats, if_pos here, here, same]
  · rw [setSeat_seats, if_neg here]

@[simp] theorem setSeat_desks : (a.setSeat e seat).desks = a.desks := rfl

@[simp] theorem setSeat_net : (a.setSeat e seat).net = a.net := rfl

@[simp] theorem setDesk_desks : (a.setDesk idx desk).desks idx' = if idx' = idx then desk else a.desks idx' :=
  Function.update_apply ..

@[simp] theorem setDesk_seats : (a.setDesk idx desk).seats = a.seats := rfl

@[simp] theorem setDesk_net : (a.setDesk idx desk).net = a.net := rfl

@[simp] theorem send_seats : (a.send out).seats = a.seats := rfl

@[simp] theorem send_desks : (a.send out).desks = a.desks := rfl

@[simp] theorem send_net : (a.send out).net = a.net ++ out := rfl

end Fields

/-- A share whose version has moved sends its next update. -/
def update (a : Control) (e : GroupPart) (share : Nat) : Control :=
  match (a.seats e).localVersions[share]? with
  | none => a
  | some l =>
    if (a.seats e).version ≤ l then a else (a.setSeat e ((a.seats e).update share)).send [.worker e]

/-- The stub at a message of one of its workers. -/
def collect (plan : Plan) (a : Control) (e : GroupPart) : Control :=
  if e.numLocal ≤ (a.seats e).numUpdate + 1 then
    (a.setSeat e ((a.seats e).request plan.slices)).send ((List.range plan.slices).map (.request e))
  else a.setSeat e (a.seats e).wait

/-- The server at a request. -/
def serve (plan : Plan) (a : Control) (e : GroupPart) (idx : Nat) : Option Control :=
  let desk := a.desks idx
  let numUpdate := desk.numUpdate + e.numLocal
  if plan.total ≤ numUpdate then
    if numUpdate = plan.total then
      some ((a.setDesk idx ⟨desk.version + 1, 0, []⟩).send
        ((desk.buffer ++ [e]).map (.response · idx (desk.version + 1))))
    else none
  else some (a.setDesk idx { desk with numUpdate, buffer := desk.buffer ++ [e] })

/-- The stub at a response. -/
def parse (plan : Plan) (a : Control) (e : GroupPart) (idx : Nat) (version : Int) : Option Control :=
  if (a.seats e).pending[idx]? = some true then some (a.setSeat e ((a.seats e).parse plan.slices idx version))
  else none

def handle (plan : Plan) (a : Control) : Signal → Option Control
  | .worker e => some (a.collect plan e)
  | .request e idx => a.serve plan e idx
  | .response e idx version => a.parse plan e idx version

/-- Any message in flight arrives. -/
def deliver (plan : Plan) (a : Control) (i : Nat) : Option Control :=
  match a.net[i]? with
  | none => some a
  | some signal => { a with net := a.net.eraseIdx i }.handle plan signal

end Control

/-- What can happen: `Worker::Update` for a share, with its step, or the arrival of a message. -/
inductive Action where
  | update (e : GroupPart) (share : Nat) (step : Int)
  | deliver (i : Nat)

def Control.act (plan : Plan) (a : Control) : Action → Option Control
  | .update e share _ => some (if e ∈ plan.parts then a.update e share else a)
  | .deliver i => a.deliver plan i

/-- The part and the slice of a message exist. -/
def Signal.Known (plan : Plan) : Signal → Prop
  | .worker e => e ∈ plan.parts
  | .request e idx => e ∈ plan.parts ∧ idx < plan.slices
  | .response e idx _ => e ∈ plan.parts ∧ idx < plan.slices

/-- Is it the request or the response of the part `e` for the slice `idx`? -/
def Signal.concerns (e : GroupPart) (idx : Nat) : Signal → Bool
  | .worker _ => false
  | .request e' idx' => e' = e ∧ idx' = idx
  | .response e' idx' _ => e' = e ∧ idx' = idx

/-- The buffered requests of a slice are counted. -/
structure Desk.Ok (plan : Plan) (desk : Desk) : Prop where
  known : ∀ e ∈ desk.buffer, e ∈ plan.parts
  count : desk.numUpdate = GroupPart.shares desk.buffer

namespace Control

/-- How often the request or the response of `e` for the slice `idx` is under way. -/
def underway (a : Control) (e : GroupPart) (idx : Nat) : Nat :=
  a.net.countP (Signal.concerns e idx) + (a.desks idx).buffer.count e

structure Wf (plan : Plan) (a : Control) : Prop where
  seat : ∀ e ∈ plan.parts, (a.seats e).Ok plan.slices e (a.net.count (.worker e))
  once : ∀ e ∈ plan.parts, ∀ idx < plan.slices, a.underway e idx = (a.seats e).owed idx
  known : ∀ signal ∈ a.net, signal.Known plan
  desk : ∀ idx < plan.slices, (a.desks idx).Ok plan

theorem Wf.perm {plan : Plan} {a : Control} (wf : a.Wf plan) {net : List Signal} (perm : a.net.Perm net) :
    ({ a with net } : Control).Wf plan where
  seat e mem := perm.count_eq (.worker e) ▸ wf.seat e mem
  once e mem idx lt := by
    have once := wf.once e mem idx lt
    rw [underway, perm.countP_eq] at once
    exact once
  known signal mem := wf.known signal (perm.mem_iff.mpr mem)
  desk := wf.desk

/-- Taking a message out of the net. -/
theorem Wf.taken {plan : Plan} {a : Control} (wf : a.Wf plan) {i : Nat} {signal : Signal}
    (here : a.net[i]? = some signal) : (({ a with net := a.net.eraseIdx i } : Control).before signal).Wf plan := by
  obtain ⟨lt, rfl⟩ := List.getElem?_eq_some_iff.mp here
  exact wf.perm (List.getElem_cons_eraseIdx_perm lt).symm

section Signals

variable (es : List GroupPart) (e e' : GroupPart) (n idx idx' : Nat) (version : Int)

@[simp] theorem count_requests : ((List.range n).map (Signal.request e)).count (.worker e') = 0 := by
  simp [List.count_eq_zero]

@[simp] theorem count_responses : (es.map (Signal.response · idx version)).count (.worker e') = 0 := by
  simp [List.count_eq_zero]

/-- One request for each slice. -/
theorem countP_requests : ((List.range n).map (Signal.request e)).countP (Signal.concerns e' idx) =
    if e = e' ∧ idx < n then 1 else 0 := by
  by_cases same : e = e'
  · subst same
    have swap : ((List.range n).map (Signal.request e)).countP (Signal.concerns e idx) = (List.range n).count idx := by
      rw [List.countP_map, List.count]
      apply List.countP_congr
      simp [Signal.concerns]
    rw [swap, List.Nodup.count List.nodup_range]
    simp
  · simp [List.countP_eq_zero, Signal.concerns, same]

/-- One response to each of the parts. -/
theorem countP_responses : (es.map (Signal.response · idx version)).countP (Signal.concerns e idx') =
    if idx = idx' then es.count e else 0 := by
  by_cases same : idx = idx'
  · subst same
    rw [List.countP_map, if_pos rfl, List.count]
    apply List.countP_congr
    simp [Signal.concerns]
  · simp [List.countP_eq_zero, Signal.concerns, same]

end Signals

section Steps

variable {plan : Plan} {a a' : Control} {e : GroupPart} {idx : Nat}

/-- **A share sends its update.** -/
theorem Wf.update (wf : a.Wf plan) (mem : e ∈ plan.parts) (share : Nat) : (a.update e share).Wf plan := by
  rw [Control.update]
  split
  · exact wf
  · rename_i l here
    split
    · exact wf
    · rename_i moved
      refine ⟨fun e' mem' => ?_, fun e' mem' idx lt => ?_, ?_, wf.desk⟩
      · have ok := wf.seat e' mem'
        by_cases same : e' = e
        · subst same
          simpa using ok.update here (not_le.mp moved)
        · simpa [same, Ne.symm same, List.count_singleton] using ok
      · have once := wf.once e' mem' idx lt
        by_cases same : e' = e
        · subst same
          simpa [underway, Signal.concerns] using once
        · simpa [underway, Signal.concerns, same] using once
      · intro signal mem'
        rcases List.mem_append.mp mem' with mem' | mem'
        · exact wf.known signal mem'
        · rw [List.mem_singleton.mp mem']
          exact mem

/-- **The stub at a message of a worker.** -/
theorem Wf.collect (wf : (a.before (.worker e)).Wf plan) : (a.collect plan e).Wf plan := by
  have mem : e ∈ plan.parts := wf.known _ List.mem_cons_self
  have ok := wf.seat e mem
  simp only [before, List.count_cons_self] at ok
  have others {e' : GroupPart} (mem' : e' ∈ plan.parts) (other : e' ≠ e) :
      (a.seats e').Ok plan.slices e' (a.net.count (.worker e')) := by
    have ok' := wf.seat e' mem'
    simpa [before, List.count_cons, Ne.symm other] using ok'
  have once' {e' : GroupPart} {idx : Nat} (mem' : e' ∈ plan.parts) (lt : idx < plan.slices) :
      a.underway e' idx = (a.seats e').owed idx := by
    have once := wf.once e' mem' idx lt
    simpa [before, underway, Signal.concerns, List.countP_cons] using once
  have known' (signal : Signal) (here : signal ∈ a.net) : signal.Known plan := wf.known signal (List.mem_cons_of_mem _ here)
  rw [Control.collect]
  split
  · rename_i full
    refine ⟨fun e' mem' => ?_, fun e' mem' idx lt => ?_, ?_, wf.desk⟩
    · by_cases same : e' = e
      · subst same
        simpa using ok.request full
      · simpa [same] using others mem' same
    · have once := once' mem' lt
      rw [underway] at once
      simp only [underway, send_net, setSeat_net, send_desks, setSeat_desks, send_seats, setSeat_seats,
        List.countP_append, countP_requests]
      by_cases same : e' = e
      · subst same
        rw [Seat.owed_idle ok.isOpen_of_worker.pending] at once
        simp only [lt, and_self, if_true, Seat.owed_request lt]
        omega
      · simp only [same, Ne.symm same, false_and, if_false]
        omega
    · intro signal here
      rcases List.mem_append.mp here with here | here
      · exact known' signal here
      · obtain ⟨idx, lt, rfl⟩ := List.mem_map.mp here
        exact ⟨mem, List.mem_range.mp lt⟩
  · rename_i few
    refine ⟨fun e' mem' => ?_, fun e' mem' idx lt => ?_, known', wf.desk⟩
    · by_cases same : e' = e
      · subst same
        simpa using ok.wait (not_le.mp few)
      · simpa [same] using others mem' same
    · have once := once' mem' lt
      by_cases same : e' = e
      · subst same
        simpa [underway] using once
      · simpa [underway, same] using once

/-- **The stub at a response.** -/
theorem Wf.parse {version : Int} (wf : (a.before (.response e idx version)).Wf plan)
    (run : a.parse plan e idx version = some a') : a'.Wf plan := by
  obtain ⟨mem, lt⟩ : e ∈ plan.parts ∧ idx < plan.slices := wf.known _ List.mem_cons_self
  rw [Control.parse] at run
  split at run
  · rename_i waits
    cases run
    refine ⟨fun e' mem' => ?_, fun e' mem' idx' lt' => ?_, fun signal here => ?_, wf.desk⟩
    · have ok := wf.seat e' mem'
      by_cases same : e' = e
      · subst same
        simpa using ok.parse waits version
      · simpa [same] using ok
    · have once := wf.once e' mem' idx' lt'
      by_cases same : e' = e
      · subst same
        by_cases here : idx' = idx
        · subst here
          have owes : (a.seats e').owed idx' = 1 := if_pos waits
          simp only [before, underway, Signal.concerns, owes, List.countP_cons, and_self, decide_true, if_true] at once
          simp only [underway, setSeat_net, setSeat_desks, setSeat_seats, if_true, Seat.owed_parse_self]
          omega
        · simpa [underway, before, Signal.concerns, Seat.owed_parse_other here, Ne.symm here] using once
      · simpa [underway, before, Signal.concerns, same, Ne.symm same] using once
    · exact wf.known signal (List.mem_cons_of_mem _ here)
  · cases run

/-- **The server at a request.** -/
theorem Wf.serve (wf : (a.before (.request e idx)).Wf plan) (run : a.serve plan e idx = some a') : a'.Wf plan := by
  obtain ⟨mem, lt⟩ : e ∈ plan.parts ∧ idx < plan.slices := wf.known _ List.mem_cons_self
  have known' (signal : Signal) (here : signal ∈ a.net) : signal.Known plan := wf.known signal (List.mem_cons_of_mem _ here)
  have desk : (a.desks idx).Ok plan := wf.desk idx lt
  have desk' {idx' : Nat} (lt' : idx' < plan.slices) : (a.desks idx').Ok plan := wf.desk idx' lt'
  rw [Control.serve] at run
  split at run
  · split at run
    · cases run
      refine ⟨fun e' mem' => ?_, fun e' mem' idx' lt' => ?_, fun signal here => ?_, fun idx' lt' => ?_⟩
      · have ok := wf.seat e' mem'
        simp only [before, List.count_cons, beq_iff_eq, reduceCtorEq, if_false, Nat.add_zero] at ok
        simpa only [send_net, setDesk_net, List.count_append, count_responses, Nat.add_zero, send_seats,
          setDesk_seats] using ok
      · have once := wf.once e' mem' idx' lt'
        simp only [before, underway, Signal.concerns, List.countP_cons, decide_eq_true_eq] at once
        simp only [underway, send_net, setDesk_net, List.countP_append, countP_responses, send_desks, setDesk_desks,
          send_seats, setDesk_seats]
        by_cases here : idx' = idx
        · subst here
          simp only [if_true, List.count_append, List.count_singleton, beq_iff_eq, List.count_nil, and_true] at once ⊢
          omega
        · simp only [here, Ne.symm here, and_false, if_false] at once ⊢
          omega
      · rcases List.mem_append.mp here with here | here
        · exact known' signal here
        · obtain ⟨e', mem', rfl⟩ := List.mem_map.mp here
          rcases List.mem_append.mp mem' with mem' | mem'
          · exact ⟨desk.known e' mem', lt⟩
          · exact ⟨List.mem_singleton.mp mem' ▸ mem, lt⟩
      · by_cases here : idx' = idx
        · subst here
          simp only [send_desks, setDesk_desks, if_true]
          exact ⟨by simp, by simp⟩
        · simpa [here] using desk' lt'
    · cases run
  · cases run
    refine ⟨wf.seat, fun e' mem' idx' lt' => ?_, known', fun idx' lt' => ?_⟩
    · have once := wf.once e' mem' idx' lt'
      by_cases here : idx' = idx
      · subst here
        simp only [before, underway, Signal.concerns, List.countP_cons, and_true, decide_eq_true_eq] at once
        simp only [underway, setDesk_net, setDesk_desks, if_true, List.count_append, List.count_singleton,
          setDesk_seats, beq_iff_eq]
        omega
      · simpa [before, underway, Signal.concerns, here, Ne.symm here] using once
    · by_cases here : idx' = idx
      · subst here
        simp only [setDesk_desks, if_true]
        refine ⟨fun e' mem' => ?_, by rw [GroupPart.shares_concat, desk.count]⟩
        rcases List.mem_append.mp mem' with mem' | mem'
        · exact desk.known e' mem'
        · exact List.mem_singleton.mp mem' ▸ mem
      · simpa [here] using desk' lt'

/-- **Any message** keeps the invariant. -/
theorem Wf.deliver (wf : a.Wf plan) {i : Nat} (run : a.deliver plan i = some a') : a'.Wf plan := by
  rw [Control.deliver] at run
  split at run
  · cases run
    exact wf
  · rename_i signal here
    have ready := wf.taken here
    cases signal with
    | worker e =>
      cases run
      exact ready.collect
    | request e idx => exact ready.serve run
    | response e idx version => exact ready.parse run

theorem Wf.act (wf : a.Wf plan) {action : Action} (run : a.act plan action = some a') : a'.Wf plan := by
  cases action with
  | update e share step =>
    cases run
    split
    · exact wf.update ‹_› share
    · exact wf
  | deliver i => exact wf.deliver run

/-- A slice with a message under way is pending. -/
theorem Wf.pending_of_underway (wf : a.Wf plan) (mem : e ∈ plan.parts) (lt : idx < plan.slices)
    (positive : 0 < a.underway e idx) : (a.seats e).pending[idx]? = some true := by
  by_contra none
  rw [wf.once e mem idx lt, Seat.owed, if_neg none] at positive
  omega

/-- A buffered request belongs to a pending slice. -/
theorem Wf.pending_of_buffer (wf : a.Wf plan) (lt : idx < plan.slices) (here : e ∈ (a.desks idx).buffer) :
    (a.seats e).pending[idx]? = some true := by
  have some : 0 < (a.desks idx).buffer.count e := List.count_pos_iff.mpr here
  exact wf.pending_of_underway ((wf.desk idx lt).known e here) lt (Nat.add_pos_right _ some)

/-- A request or response under way belongs to a pending slice. -/
theorem Wf.pending (wf : a.Wf plan) (mem : e ∈ plan.parts) (lt : idx < plan.slices) {signal : Signal}
    (here : signal ∈ a.net) (concerns : signal.concerns e idx = true) : (a.seats e).pending[idx]? = some true := by
  have some : 0 < a.net.countP (Signal.concerns e idx) := List.countP_pos_iff.mpr ⟨signal, here, concerns⟩
  exact wf.pending_of_underway mem lt (Nat.add_pos_left some _)

/-- An idle part has no request under way, -/
theorem Wf.no_request (wf : a.Wf plan) (idle : true ∉ (a.seats e).pending) (idx : Nat) : .request e idx ∉ a.net := by
  intro here
  obtain ⟨mem, lt⟩ : e ∈ plan.parts ∧ idx < plan.slices := wf.known _ here
  exact idle (List.mem_of_getElem? (wf.pending mem lt here (by simp [Signal.concerns])))

/-- and no response. -/
theorem Wf.no_response (wf : a.Wf plan) (idle : true ∉ (a.seats e).pending) (idx : Nat) (version : Int) :
    .response e idx version ∉ a.net := by
  intro here
  obtain ⟨mem, lt⟩ : e ∈ plan.parts ∧ idx < plan.slices := wf.known _ here
  exact idle (List.mem_of_getElem? (wf.pending mem lt here (by simp [Signal.concerns])))

/-- No part has two requests at a server. -/
theorem Wf.nodup_requests (wf : (a.before (.request e idx)).Wf plan) : ((a.desks idx).buffer ++ [e]).Nodup := by
  obtain ⟨-, lt⟩ : e ∈ plan.parts ∧ idx < plan.slices := wf.known _ List.mem_cons_self
  rw [List.nodup_iff_count_le_one]
  intro e'
  by_cases mem : e' ∈ plan.parts
  · have once := wf.once e' mem idx lt
    have le : ((a.before (.request e idx)).seats e').owed idx ≤ 1 := Seat.owed_le_one
    simp only [underway, before_net, before_desks, Signal.concerns, List.countP_cons, and_true, decide_eq_true_eq] at once
    rw [List.count_append, List.count_singleton]
    simp only [beq_iff_eq]
    omega
  · have other : e' ≠ e := by
      rintro rfl
      exact mem (wf.known _ List.mem_cons_self).1
    have none : e' ∉ (a.desks idx).buffer := fun here => mem ((wf.desk idx lt).known e' here)
    rw [List.count_append, List.count_eq_zero.mpr none, List.count_singleton]
    simp [Ne.symm other]

/-- A part whose request is at the server has no other message for the slice under way. -/
theorem Wf.alone (wf : (a.before (.request e idx)).Wf plan) {e' : GroupPart} (here : e' ∈ (a.desks idx).buffer ++ [e])
    {signal : Signal} (mem : signal ∈ a.net) : signal.concerns e' idx = false := by
  obtain ⟨known, lt⟩ : e ∈ plan.parts ∧ idx < plan.slices := wf.known _ List.mem_cons_self
  have mem' : e' ∈ plan.parts := by
    rcases List.mem_append.mp here with here | here
    · exact (wf.desk idx lt).known e' here
    · exact List.mem_singleton.mp here ▸ known
  have once := wf.once e' mem' idx lt
  have le : ((a.before (.request e idx)).seats e').owed idx ≤ 1 := Seat.owed_le_one
  have one : 0 < ((a.desks idx).buffer ++ [e]).count e' := List.count_pos_iff.mpr here
  rw [List.count_append, List.count_singleton] at one
  simp only [beq_iff_eq] at one
  simp only [underway, before_net, before_desks, Signal.concerns, List.countP_cons, and_true, decide_eq_true_eq] at once
  by_contra concerns
  have some : 0 < a.net.countP (Signal.concerns e' idx) := List.countP_pos_iff.mpr ⟨signal, mem, by simpa using concerns⟩
  omega

end Steps

/-! ## The start -/

/-- No message is under way, and all shares are at the version `put` and may send their updates. -/
structure Initial (plan : Plan) (put : Int) (a : Control) : Prop where
  net : a.net = []
  version : ∀ e ∈ plan.parts, (a.seats e).version = put
  shares : ∀ e ∈ plan.parts, ((a.seats e).localVersions.length : Int) = e.numLocal
  locals : ∀ e ∈ plan.parts, ∀ l ∈ (a.seats e).localVersions, l < put
  numUpdate : ∀ e ∈ plan.parts, (a.seats e).numUpdate = 0
  pending : ∀ e ∈ plan.parts, (a.seats e).pending = List.replicate plan.slices false
  numPending : ∀ e ∈ plan.parts, (a.seats e).numPending = 0
  desk : ∀ idx < plan.slices, a.desks idx = ⟨put, 0, []⟩

namespace Initial

variable {plan : Plan} {put : Int} {a : Control} {e : GroupPart}

theorem isOpen (initial : a.Initial plan put) (mem : e ∈ plan.parts) : (a.seats e).Open 0 := by
  have version := initial.version e mem
  refine ⟨?_, fun l here => ?_, ?_⟩
  · rw [initial.pending e mem]
    simp
  · exact version ▸ (initial.locals e mem l here).le
  · rw [version, initial.numUpdate e mem, List.count_eq_zero.mpr fun here => lt_irrefl _ (initial.locals e mem put here)]
    rfl

theorem wf (initial : a.Initial plan put) (positive : ∀ e ∈ plan.parts, 1 ≤ e.numLocal) : a.Wf plan := by
  refine ⟨fun e mem => ?_, fun e mem idx lt => ?_, ?_, fun idx lt => ?_⟩
  · rw [initial.net]
    have free := initial.isOpen mem
    refine ⟨initial.shares e mem, (initial.numUpdate e mem).ge, ?_, ?_, ?_, .inr free⟩
    · rw [initial.numUpdate e mem]
      exact positive e mem
    · rw [initial.pending e mem, List.length_replicate]
    · rw [initial.numPending e mem, List.count_eq_zero.mpr free.pending]
      rfl
  · rw [Seat.owed_idle (initial.isOpen mem).pending, underway, initial.net, initial.desk idx lt]
    rfl
  · rw [initial.net]
    simp
  · rw [initial.desk idx lt]
    exact ⟨by simp, rfl⟩

end Initial
end Control

end Singa
