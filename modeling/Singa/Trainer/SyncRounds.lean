import Singa.Trainer.GradMean
import Singa.Trainer.Rounds

/-!
# Synchronous updates of one group

The parts of one group go through their rounds together: a slice fires when the
requests of all parts are in, so no part can be more than one round ahead of a
slice. `Lockstep` says for each part and slice which of the two is where; the
checks of the server and of the stub then never fail, and every count is the
number of rounds.
-/

namespace Singa
set_option autoImplicit false

open GroupPart

variable {α : Type}

namespace Seat

variable {seat : Seat} {slices workers idx : Nat} {e : GroupPart} {version : Int}

/-- The version that the round under way leads to, or the last one led to. -/
def round (seat : Seat) : Int := seat.version + if true ∈ seat.pending then 1 else 0

@[simp] theorem round_update (share : Nat) : (seat.update share).round = seat.round := rfl

@[simp] theorem round_wait : seat.wait.round = seat.round := rfl

theorem round_idle (idle : true ∉ seat.pending) : seat.round = seat.version := by
  simp [round, idle]

theorem round_request (some : 0 < slices) (idle : true ∉ seat.pending) : (seat.request slices).round = seat.round + 1 := by
  rw [round_idle idle]
  simp [round, request, some.ne']

theorem round_parse (ok : seat.Ok slices e workers) (waits : seat.pending[idx]? = some true) (here : version = seat.round) :
    (seat.parse slices idx version).round = seat.round := by
  have busy : seat.round = seat.version + 1 := by simp [round, List.mem_of_getElem? waits]
  have last := ok.last_iff waits
  by_cases done : (seat.numPending - 1) % slices = 0
  · rw [round_idle (last.mp done), here]
    simp [parse, done]
  · have more : true ∈ seat.pending.set idx false := by
      by_contra idle
      exact done (last.mpr idle)
    rw [busy]
    simp [round, parse, done, more]

end Seat

namespace Control

/-- The parts of one group, and some slices. -/
structure Sync (plan : Plan) : Prop where
  groups : Groups plan.parts plan.total
  one : ∀ e ∈ plan.parts, ∀ e' ∈ plan.parts, e.grp = e'.grp
  some : 0 < plan.slices

/-- A slice is at the version of a part's round, or one behind while the part's request waits. -/
structure Lockstep (plan : Plan) (a : Control) : Prop where
  idle : ∀ e ∈ plan.parts, ∀ idx < plan.slices, (a.seats e).pending[idx]? ≠ some true →
    (a.desks idx).version = (a.seats e).round
  request : ∀ e idx, .request e idx ∈ a.net → (a.desks idx).version + 1 = (a.seats e).round
  buffer : ∀ idx < plan.slices, ∀ e ∈ (a.desks idx).buffer, (a.desks idx).version + 1 = (a.seats e).round
  response : ∀ e idx v, .response e idx v ∈ a.net → v = (a.seats e).round ∧ (a.desks idx).version = (a.seats e).round

variable {plan : Plan} {a a' : Control} {e : GroupPart} {idx : Nat}

theorem Lockstep.perm (lock : a.Lockstep plan) {net : List Signal} (perm : a.net.Perm net) :
    ({ a with net } : Control).Lockstep plan :=
  ⟨lock.idle, fun e idx mem => lock.request e idx (perm.mem_iff.mpr mem), lock.buffer, fun e idx v mem =>
    lock.response e idx v (perm.mem_iff.mpr mem)⟩

/-- Only the rounds, the slices and the requests and responses count. -/
theorem Lockstep.congr (lock : a.Lockstep plan) (desks : a'.desks = a.desks)
    (rounds : ∀ e, (a'.seats e).round = (a.seats e).round) (pending : ∀ e, (a'.seats e).pending = (a.seats e).pending)
    (requests : ∀ e idx, .request e idx ∈ a'.net → .request e idx ∈ a.net)
    (responses : ∀ e idx v, .response e idx v ∈ a'.net → .response e idx v ∈ a.net) : a'.Lockstep plan := by
  refine ⟨fun e mem idx lt idle => ?_, fun e idx mem => ?_, fun idx lt e mem => ?_, fun e idx v mem => ?_⟩
  · rw [pending] at idle
    rw [desks, rounds]
    exact lock.idle e mem idx lt idle
  · rw [desks, rounds]
    exact lock.request e idx (requests e idx mem)
  · rw [desks] at mem ⊢
    rw [rounds]
    exact lock.buffer idx lt e mem
  · rw [desks, rounds]
    exact lock.response e idx v (responses e idx v mem)

theorem Lockstep.update (lock : a.Lockstep plan) (share : Nat) : (a.update e share).Lockstep plan := by
  rw [Control.update]
  split
  · exact lock
  · split
    · exact lock
    · exact lock.congr rfl (setSeat_same Seat.round rfl) (setSeat_same Seat.pending rfl)
        (fun e' idx mem => by simpa using mem) (fun e' idx v mem => by simpa using mem)

theorem Lockstep.collect (sync : Sync plan) (lock : (a.before (.worker e)).Lockstep plan)
    (wf : (a.before (.worker e)).Wf plan) : (a.collect plan e).Lockstep plan := by
  have mem : e ∈ plan.parts := wf.known _ List.mem_cons_self
  have ok := wf.seat e mem
  simp only [before_net, before_seats, List.count_cons_self] at ok
  have free := ok.isOpen_of_worker.pending
  have request' {e' : GroupPart} {idx : Nat} (here : .request e' idx ∈ a.net) :
      (a.desks idx).version + 1 = (a.seats e').round := lock.request e' idx (List.mem_cons_of_mem _ here)
  have response' {e' : GroupPart} {idx : Nat} {v : Int} (here : .response e' idx v ∈ a.net) :
      v = (a.seats e').round ∧ (a.desks idx).version = (a.seats e').round :=
    lock.response e' idx v (List.mem_cons_of_mem _ here)
  rw [Control.collect]
  split
  · have next := Seat.round_request sync.some free
    refine ⟨fun e' mem' idx lt idle => ?_, fun e' idx here => ?_, fun idx lt e' here => ?_, fun e' idx v here => ?_⟩
    · by_cases same : e' = e
      · subst same
        simp [Seat.request, lt] at idle
      · simp only [send_seats, setSeat_seats, same, if_false] at idle ⊢
        exact lock.idle e' mem' idx lt idle
    · simp only [send_net, setSeat_net, List.mem_append, List.mem_map, List.mem_range, Signal.request.injEq] at here
      rcases here with here | ⟨idx, lt, rfl, rfl⟩
      · have other : e' ≠ e := by
          rintro rfl
          exact wf.no_request free idx (List.mem_cons_of_mem _ here)
        simpa [other] using request' here
      · have waits : (a.seats e).pending[idx]? ≠ some true := fun waits => free (List.mem_of_getElem? waits)
        simpa [next] using lock.idle e mem idx lt waits
    · have other : e' ≠ e := by
        rintro rfl
        exact free (List.mem_of_getElem? (wf.pending_of_buffer lt here))
      simpa [other] using lock.buffer idx lt e' here
    · have old : Signal.response e' idx v ∈ a.net := by simpa using here
      have other : e' ≠ e := by
        rintro rfl
        exact wf.no_response free idx v (List.mem_cons_of_mem _ old)
      simpa [other] using response' old
  · exact lock.congr rfl (setSeat_same Seat.round rfl) (setSeat_same Seat.pending rfl)
      (fun e' idx here => List.mem_cons_of_mem _ here) (fun e' idx v here => List.mem_cons_of_mem _ here)

/-- The requests at a server are of different parts, and at the total they are those of all. -/
theorem Sync.requests (sync : Sync plan) (wf : (a.before (.request e idx)).Wf plan) :
    (a.desks idx).numUpdate + e.numLocal ≤ plan.total ∧
      (plan.total ≤ (a.desks idx).numUpdate + e.numLocal → ((a.desks idx).buffer ++ [e]).Perm plan.parts) := by
  obtain ⟨mem, lt⟩ : e ∈ plan.parts ∧ idx < plan.slices := wf.known _ List.mem_cons_self
  have desk : (a.desks idx).Ok plan := wf.desk idx lt
  have all : ofGroup plan.parts e.grp = plan.parts :=
    List.filter_eq_self.mpr fun e' mem' => by simpa using sync.one e' mem' e mem
  have within : ∀ x ∈ (a.desks idx).buffer ++ [e], x ∈ ofGroup plan.parts e.grp := by
    intro x here
    rw [all]
    rcases List.mem_append.mp here with here | here
    · exact desk.known x here
    · exact List.mem_singleton.mp here ▸ mem
  have bound := sync.groups.shares_le mem wf.nodup_requests within
  rwa [all, shares_concat, ← desk.count] at bound

/-- **The server never counts past the total**, and the slice stays in step. -/
theorem Lockstep.serve (sync : Sync plan) (lock : (a.before (.request e idx)).Lockstep plan)
    (wf : (a.before (.request e idx)).Wf plan) : ∃ a', a.serve plan e idx = some a' ∧ a'.Lockstep plan := by
  obtain ⟨mem, lt⟩ : e ∈ plan.parts ∧ idx < plan.slices := wf.known _ List.mem_cons_self
  obtain ⟨le, whole⟩ := sync.requests wf
  have first : (a.desks idx).version + 1 = (a.seats e).round := lock.request e idx List.mem_cons_self
  have behind : ∀ e' ∈ (a.desks idx).buffer ++ [e], (a.desks idx).version + 1 = (a.seats e').round := by
    intro e' here
    rcases List.mem_append.mp here with here | here
    · exact lock.buffer idx lt e' here
    · rw [List.mem_singleton.mp here]
      exact first
  rw [Control.serve]
  rcases le.lt_or_eq with few | full
  · refine ⟨_, if_neg (not_le.mpr few), ?_⟩
    refine ⟨fun e' mem' idx' lt' idle => ?_, fun e' idx' here => ?_, fun idx' lt' e' here => ?_, fun e' idx' v here => ?_⟩
    · by_cases same : idx' = idx
      · subst same
        simpa using lock.idle e' mem' idx' lt' idle
      · simpa [same] using lock.idle e' mem' idx' lt' idle
    · have old := lock.request e' idx' (List.mem_cons_of_mem _ here)
      by_cases same : idx' = idx
      · subst same
        simpa using old
      · simpa [same] using old
    · by_cases same : idx' = idx
      · subst same
        simp only [setDesk_desks, if_true] at here ⊢
        exact behind e' here
      · simp only [setDesk_desks, same, if_false] at here ⊢
        exact lock.buffer idx' lt' e' here
    · have old := lock.response e' idx' v (List.mem_cons_of_mem _ here)
      by_cases same : idx' = idx
      · subst same
        simpa using old
      · simpa [same] using old
  · have all := whole full.ge
    refine ⟨_, by rw [if_pos full.ge, if_pos full], ?_⟩
    refine ⟨fun e' mem' idx' lt' idle => ?_, fun e' idx' here => ?_, fun idx' lt' e' here => ?_, fun e' idx' v here => ?_⟩
    · by_cases same : idx' = idx
      · subst same
        refine absurd ?_ idle
        rcases List.mem_append.mp (all.mem_iff.mpr mem') with here | here
        · exact wf.pending_of_buffer lt here
        · rw [List.mem_singleton.mp here]
          exact wf.pending mem lt List.mem_cons_self (by simp [Signal.concerns])
      · simpa [same] using lock.idle e' mem' idx' lt' idle
    · have old : Signal.request e' idx' ∈ a.net := by simpa using here
      have known : e' ∈ plan.parts ∧ idx' < plan.slices := wf.known _ (List.mem_cons_of_mem _ old)
      by_cases same : idx' = idx
      · subst same
        have alone := wf.alone (all.mem_iff.mpr known.1) old
        simp [Signal.concerns] at alone
      · simpa [same] using lock.request e' idx' (List.mem_cons_of_mem _ old)
    · by_cases same : idx' = idx
      · subst same
        simp at here
      · simp only [send_desks, setDesk_desks, same, if_false] at here ⊢
        exact lock.buffer idx' lt' e' here
    · simp only [send_net, setDesk_net, List.mem_append, List.mem_map, Signal.response.injEq] at here
      rcases here with old | ⟨e'', here, rfl, rfl, rfl⟩
      · have known : e' ∈ plan.parts ∧ idx' < plan.slices := wf.known _ (List.mem_cons_of_mem _ old)
        by_cases same : idx' = idx
        · subst same
          have alone := wf.alone (all.mem_iff.mpr known.1) old
          simp [Signal.concerns] at alone
        · simpa [same] using lock.response e' idx' v (List.mem_cons_of_mem _ old)
      · simpa using behind e'' (by simpa using here)

/-- **The stub always finds the slice of a response pending**, and its version goes up by one. -/
theorem Lockstep.parse {version : Int} (lock : (a.before (.response e idx version)).Lockstep plan)
    (wf : (a.before (.response e idx version)).Wf plan) : ∃ a', a.parse plan e idx version = some a' ∧ a'.Lockstep plan := by
  obtain ⟨mem, lt⟩ : e ∈ plan.parts ∧ idx < plan.slices := wf.known _ List.mem_cons_self
  have waits : (a.seats e).pending[idx]? = some true :=
    wf.pending mem lt List.mem_cons_self (by simp [Signal.concerns])
  have ok : (a.seats e).Ok plan.slices e (a.net.count (.worker e)) := by
    simpa using wf.seat e mem
  obtain ⟨here, level⟩ : version = (a.seats e).round ∧ (a.desks idx).version = (a.seats e).round :=
    lock.response e idx version List.mem_cons_self
  have rounds := setSeat_same Seat.round (Seat.round_parse ok waits here)
  refine ⟨_, if_pos waits, fun e' mem' idx' lt' idle => ?_, fun e' idx' mem' => ?_, fun idx' lt' e' mem' => ?_,
    fun e' idx' v mem' => ?_⟩
  · rw [rounds]
    by_cases same : e' = e ∧ idx' = idx
    · rw [same.1, same.2]
      exact level
    · refine lock.idle e' mem' idx' lt' fun pending => idle ?_
      by_cases part : e' = e
      · subst part
        have other : idx' ≠ idx := fun there => same ⟨rfl, there⟩
        simpa [Seat.parse, List.getElem?_set_ne (Ne.symm other)] using pending
      · simpa [part] using pending
  · rw [rounds]
    exact lock.request e' idx' (List.mem_cons_of_mem _ mem')
  · rw [rounds]
    exact lock.buffer idx' lt' e' mem'
  · rw [rounds]
    exact lock.response e' idx' v (List.mem_cons_of_mem _ mem')

/-! ## Counting rounds -/

/-- Is it a response to the part `e` for the slice `idx`? -/
def answers (e : GroupPart) (idx : Nat) : Signal → Bool
  | .response e' idx' _ => e' = e ∧ idx' = idx
  | _ => false

/-- The messages that an action takes out of the net. -/
def arrives (a : Control) : Action → List Signal
  | .update _ _ _ => []
  | .deliver i => a.net[i]?.toList

/-- The messages sent so far, of which those in `log` have arrived, by rounds. -/
structure Counted (plan : Plan) (put : Int) (a : Control) (log : List Signal) : Prop where
  known : ∀ signal ∈ log, signal.Known plan
  workers : ∀ e ∈ plan.parts, (log.count (.worker e) : Int) = e.numLocal * ((a.seats e).round - put) + (a.seats e).numUpdate
  requests : ∀ e ∈ plan.parts, ∀ idx < plan.slices,
    ((log ++ a.net).count (.request e idx) : Int) = (a.seats e).round - put
  responses : ∀ e ∈ plan.parts, ∀ idx < plan.slices,
    ((log ++ a.net).countP (answers e idx) : Int) = (a.desks idx).version - put

section Counting

variable {log net out : List Signal} {put version : Int} {signal : Signal}

/-- A message that arrives stays counted, and those that it causes are counted too. -/
theorem countP_moved (f : Signal → Bool) : (log ++ [signal] ++ (net ++ out)).countP f =
    (log ++ signal :: net).countP f + out.countP f := by
  simp only [List.countP_append, List.countP_cons, List.countP_nil]
  omega

theorem count_moved (other : Signal) : (log ++ [signal] ++ (net ++ out)).count other =
    (log ++ signal :: net).count other + out.count other := countP_moved _

theorem count_range_request (n : Nat) (e' : GroupPart) (idx : Nat) :
    ((List.range n).map (Signal.request e)).count (.request e' idx) = if e = e' ∧ idx < n then 1 else 0 := by
  by_cases same : e = e'
  · subst same
    rw [List.count_map_of_injective _ _ (fun _ _ h => (Signal.request.inj h).2), List.Nodup.count List.nodup_range]
    simp
  · rw [List.count_eq_zero.mpr]
    · simp [same]
    · simpa using fun _ => same

theorem countP_answers_requests (n : Nat) (e' : GroupPart) (idx : Nat) :
    ((List.range n).map (Signal.request e)).countP (answers e' idx) = 0 := by
  simp [List.countP_eq_zero, answers]

theorem count_request_responses (es : List GroupPart) (idx : Nat) (version : Int) (e' : GroupPart) (idx' : Nat) :
    (es.map (Signal.response · idx version)).count (.request e' idx') = 0 := by
  simp [List.count_eq_zero]

theorem countP_answers_responses (es : List GroupPart) (idx : Nat) (version : Int) (e' : GroupPart) (idx' : Nat) :
    (es.map (Signal.response · idx version)).countP (answers e' idx') = if idx = idx' then es.count e' else 0 := by
  rw [← countP_responses]
  apply List.countP_congr
  intro signal mem
  obtain ⟨e, -, rfl⟩ := List.mem_map.mp mem
  simp [answers, Signal.concerns]

/-- What concerns a part and a slice is a request or a response. -/
theorem countP_concerns (net : List Signal) (e : GroupPart) (idx : Nat) :
    net.countP (Signal.concerns e idx) = net.count (.request e idx) + net.countP (answers e idx) := by
  induction net with
  | nil => rfl
  | cons signal net ih =>
    rw [List.countP_cons, List.countP_cons, List.count_cons, ih]
    cases signal with
    | worker e' => simp [Signal.concerns, answers]
    | request e' idx' =>
      simp [Signal.concerns, answers]
      omega
    | response e' idx' version =>
      simp [Signal.concerns, answers]
      omega

theorem Counted.known_concat (counted : (a.before signal).Counted plan put log) (wf : (a.before signal).Wf plan) :
    ∀ other ∈ log ++ [signal], other.Known plan := by
  intro other here
  rcases List.mem_append.mp here with here | here
  · exact counted.known other here
  · rw [List.mem_singleton.mp here]
    exact wf.known _ List.mem_cons_self

theorem Counted.perm (counted : a.Counted plan put log) {net : List Signal} (perm : a.net.Perm net) :
    ({ a with net } : Control).Counted plan put log := by
  refine ⟨counted.known, counted.workers, fun e mem idx lt => ?_, fun e mem idx lt => ?_⟩
  · rw [← (perm.append_left log).count_eq]
    exact counted.requests e mem idx lt
  · rw [← (perm.append_left log).countP_eq]
    exact counted.responses e mem idx lt

theorem Initial.counted (initial : a.Initial plan put) : a.Counted plan put [] := by
  refine ⟨by simp, fun e mem => ?_, fun e mem idx lt => ?_, fun e mem idx lt => ?_⟩
  · rw [Seat.round_idle (initial.isOpen mem).pending, initial.version e mem, initial.numUpdate e mem]
    simp
  · rw [Seat.round_idle (initial.isOpen mem).pending, initial.version e mem, initial.net]
    simp
  · rw [initial.desk idx lt, initial.net]
    simp

theorem Counted.update (counted : a.Counted plan put log) (share : Nat) : (a.update e share).Counted plan put log := by
  rw [Control.update]
  split
  · exact counted
  · split
    · exact counted
    · have rounds : ∀ e', ((a.setSeat e ((a.seats e).update share)).seats e').round = (a.seats e').round :=
        setSeat_same Seat.round rfl
      have counts : ∀ e', ((a.setSeat e ((a.seats e).update share)).seats e').numUpdate = (a.seats e').numUpdate :=
        setSeat_same Seat.numUpdate rfl
      refine ⟨counted.known, fun e' mem => ?_, fun e' mem idx lt => ?_, fun e' mem idx lt => ?_⟩
      · rw [send_seats, rounds, counts]
        exact counted.workers e' mem
      · rw [send_seats, rounds, ← counted.requests e' mem idx lt]
        simp
      · simpa [answers] using counted.responses e' mem idx lt

theorem Counted.collect (sync : Sync plan) (counted : (a.before (.worker e)).Counted plan put log)
    (wf : (a.before (.worker e)).Wf plan) : (a.collect plan e).Counted plan put (log ++ [.worker e]) := by
  have mem : e ∈ plan.parts := wf.known _ List.mem_cons_self
  have ok := wf.seat e mem
  simp only [before_net, before_seats, List.count_cons_self] at ok
  have known' := counted.known_concat wf
  have workers (e' : GroupPart) : (log ++ [Signal.worker e]).count (.worker e') =
      log.count (.worker e') + if e = e' then 1 else 0 := by
    rw [List.count_append, List.count_singleton]
    simp
  rw [Control.collect]
  split
  · rename_i full
    have next := Seat.round_request sync.some ok.isOpen_of_worker.pending
    have few := ok.few
    refine ⟨known', fun e' mem' => ?_, fun e' mem' idx lt => ?_, fun e' mem' idx lt => ?_⟩
    · have old := counted.workers e' mem'
      rw [workers]
      by_cases same : e' = e
      · subst same
        simp only [before_seats] at old
        simp only [if_true, send_seats, setSeat_seats, next]
        push_cast
        rw [old, Seat.request]
        linarith
      · simpa [same, Ne.symm same] using old
    · have old := counted.requests e' mem' idx lt
      rw [before_net, before_seats] at old
      rw [send_net, setSeat_net, count_moved, count_range_request, send_seats, setSeat_seats]
      by_cases same : e' = e
      · subst same
        simp only [true_and, lt, if_true, next]
        push_cast
        omega
      · simpa [same, Ne.symm same] using old
    · have old := counted.responses e' mem' idx lt
      rw [before_net, before_desks] at old
      rw [send_net, setSeat_net, countP_moved, countP_answers_requests, send_desks, setSeat_desks]
      simpa using old
  · refine ⟨known', fun e' mem' => ?_, fun e' mem' idx lt => ?_, fun e' mem' idx lt => ?_⟩
    · have old := counted.workers e' mem'
      rw [workers]
      by_cases same : e' = e
      · subst same
        simp only [before_seats] at old
        simp only [if_true, setSeat_seats, Seat.round_wait]
        push_cast
        rw [old, Seat.wait]
        ring
      · simpa [same, Ne.symm same] using old
    · have old := counted.requests e' mem' idx lt
      rw [before_net, before_seats] at old
      rw [setSeat_net, List.append_assoc, List.singleton_append, old, setSeat_seats]
      by_cases same : e' = e
      · subst same
        simp
      · simp [same]
    · have old := counted.responses e' mem' idx lt
      rw [before_net, before_desks] at old
      rw [setSeat_net, List.append_assoc, List.singleton_append, old, setSeat_desks]

theorem Counted.serve (sync : Sync plan) (counted : (a.before (.request e idx)).Counted plan put log)
    (wf : (a.before (.request e idx)).Wf plan) (run : a.serve plan e idx = some a') :
    a'.Counted plan put (log ++ [.request e idx]) := by
  obtain ⟨mem, lt⟩ : e ∈ plan.parts ∧ idx < plan.slices := wf.known _ List.mem_cons_self
  have known' := counted.known_concat wf
  have workers (e' : GroupPart) : (log ++ [Signal.request e idx]).count (.worker e') = log.count (.worker e') := by
    rw [List.count_append, List.count_singleton]
    simp
  rw [Control.serve] at run
  split at run
  · split at run
    · rename_i full
      have all := (sync.requests wf).2 full.ge
      cases run
      refine ⟨known', fun e' mem' => ?_, fun e' mem' idx' lt' => ?_, fun e' mem' idx' lt' => ?_⟩
      · rw [workers]
        exact counted.workers e' mem'
      · have old := counted.requests e' mem' idx' lt'
        rw [before_net, before_seats] at old
        rw [send_net, setDesk_net, count_moved, count_request_responses, send_seats, setDesk_seats]
        simpa using old
      · have old := counted.responses e' mem' idx' lt'
        rw [before_net, before_desks] at old
        rw [send_net, setDesk_net, countP_moved, countP_answers_responses, send_desks, setDesk_desks]
        by_cases same : idx' = idx
        · subst same
          have one : ((a.desks idx').buffer ++ [e]).count e' = 1 := by
            rw [all.count_eq]
            exact List.count_eq_one_of_mem (sync.groups.distinct.of_map stubAddr) mem'
          rw [one]
          simp only [if_true]
          push_cast
          omega
        · simpa [same, Ne.symm same] using old
    · cases run
  · cases run
    refine ⟨known', fun e' mem' => ?_, fun e' mem' idx' lt' => ?_, fun e' mem' idx' lt' => ?_⟩
    · rw [workers]
      exact counted.workers e' mem'
    · rw [setDesk_net, List.append_assoc, List.singleton_append]
      exact counted.requests e' mem' idx' lt'
    · have old := counted.responses e' mem' idx' lt'
      rw [before_net, before_desks] at old
      rw [setDesk_net, List.append_assoc, List.singleton_append, old, setDesk_desks]
      by_cases same : idx' = idx
      · subst same
        simp
      · simp [same]

theorem Counted.parse (counted : (a.before (.response e idx version)).Counted plan put log)
    (lock : (a.before (.response e idx version)).Lockstep plan) (wf : (a.before (.response e idx version)).Wf plan)
    (run : a.parse plan e idx version = some a') : a'.Counted plan put (log ++ [.response e idx version]) := by
  obtain ⟨mem, lt⟩ : e ∈ plan.parts ∧ idx < plan.slices := wf.known _ List.mem_cons_self
  have known' := counted.known_concat wf
  rw [Control.parse] at run
  split at run
  · rename_i waits
    cases run
    have ok := wf.seat e mem
    simp only [before_net, before_seats] at ok
    have here : version = (a.seats e).round := (lock.response e idx version List.mem_cons_self).1
    have rounds : ∀ e', ((a.setSeat e ((a.seats e).parse plan.slices idx version)).seats e').round =
        (a.seats e').round := setSeat_same Seat.round (Seat.round_parse ok waits here)
    have counts : ∀ e', ((a.setSeat e ((a.seats e).parse plan.slices idx version)).seats e').numUpdate =
        (a.seats e').numUpdate := setSeat_same Seat.numUpdate rfl
    refine ⟨known', fun e' mem' => ?_, fun e' mem' idx' lt' => ?_, fun e' mem' idx' lt' => ?_⟩
    · have old := counted.workers e' mem'
      rw [List.count_append, List.count_singleton, rounds, counts]
      simpa using old
    · rw [setSeat_net, List.append_assoc, List.singleton_append, rounds]
      exact counted.requests e' mem' idx' lt'
    · rw [setSeat_net, List.append_assoc, List.singleton_append]
      exact counted.responses e' mem' idx' lt'
  · cases run

/-! ## Every step -/

/-- The parts and slices are in step, and the messages are counted. -/
structure InStep (plan : Plan) (put : Int) (a : Control) (log : List Signal) : Prop where
  wf : a.Wf plan
  lock : a.Lockstep plan
  counted : a.Counted plan put log

/-- **Any step can be taken**, and keeps the parts in step. -/
theorem InStep.act (sync : Sync plan) (inv : a.InStep plan put log) (action : Action) :
    ∃ a', a.act plan action = some a' ∧ a'.InStep plan put (log ++ a.arrives action) := by
  cases action with
  | update e share step =>
    refine ⟨_, rfl, ?_⟩
    rw [arrives, List.append_nil]
    split
    · exact ⟨inv.wf.update ‹_› share, inv.lock.update share, inv.counted.update share⟩
    · exact inv
  | deliver i =>
    rw [Control.act, Control.deliver, arrives]
    cases here : a.net[i]? with
    | none =>
      refine ⟨a, rfl, ?_⟩
      rw [Option.toList_none, List.append_nil]
      exact inv
    | some signal =>
      obtain ⟨lt, get⟩ := List.getElem?_eq_some_iff.mp here
      have perm : a.net.Perm (signal :: a.net.eraseIdx i) := get ▸ (List.getElem_cons_eraseIdx_perm lt).symm
      have wf := inv.wf.taken here
      have lock : (({ a with net := a.net.eraseIdx i } : Control).before signal).Lockstep plan := inv.lock.perm perm
      have counted : (({ a with net := a.net.eraseIdx i } : Control).before signal).Counted plan put log :=
        inv.counted.perm perm
      rw [Option.toList_some]
      cases signal with
      | worker e => exact ⟨_, rfl, wf.collect, lock.collect sync wf, counted.collect sync wf⟩
      | request e idx =>
        obtain ⟨a', run, lock'⟩ := lock.serve sync wf
        exact ⟨a', run, wf.serve run, lock', counted.serve sync wf run⟩
      | response e idx version =>
        obtain ⟨a', run, lock'⟩ := lock.parse wf
        exact ⟨a', run, wf.parse run, lock', counted.parse lock wf run⟩

/-- A slice is behind a part by the requests of the part that wait for it. -/
theorem InStep.waiting (inv : a.InStep plan put log) (mem : e ∈ plan.parts) (lt : idx < plan.slices) :
    (a.desks idx).version + (a.net.count (.request e idx) + (a.desks idx).buffer.count e : Nat) = (a.seats e).round := by
  have once := inv.wf.once e mem idx lt
  rw [underway, countP_concerns, Seat.owed] at once
  by_cases requested : Signal.request e idx ∈ a.net
  · have behind := inv.lock.request e idx requested
    have some := List.count_pos_iff.mpr requested
    split at once <;> omega
  by_cases buffered : e ∈ (a.desks idx).buffer
  · have behind := inv.lock.buffer idx lt e buffered
    have some := List.count_pos_iff.mpr buffered
    split at once <;> omega
  rw [List.count_eq_zero.mpr requested, List.count_eq_zero.mpr buffered] at once ⊢
  split at once
  · rename_i waits
    obtain ⟨signal, here, concerns⟩ : ∃ signal ∈ a.net, answers e idx signal = true := by
      rw [← List.countP_pos_iff]
      omega
    cases signal with
    | worker e' => simp [answers] at concerns
    | request e' idx' => simp [answers] at concerns
    | response e' idx' version =>
      obtain ⟨rfl, rfl⟩ : e' = e ∧ idx' = idx := by simpa [answers] using concerns
      simpa using (inv.lock.response e' idx' version here).2
  · rename_i waits
    simpa using inv.lock.idle e mem idx lt waits

end Counting
end Control

/-! ## In the processes -/

/-- Related lists have as many elements of related kinds. -/
theorem countP_forall₂ {β γ : Type} {R : β → γ → Prop} {f : β → Bool} {g : γ → Bool} {l : List β} {l' : List γ}
    (related : List.Forall₂ R l l') (same : ∀ b ∈ l, ∀ c, R b c → f b = g c) : l.countP f = l'.countP g := by
  induction related with
  | nil => rfl
  | @cons b c l l' first _ ih =>
    rw [List.countP_cons, List.countP_cons, same b List.mem_cons_self c first,
      ih fun b mem => same b (List.mem_cons_of_mem _ mem)]

/-- The packets that an action takes out of the net. -/
def System.arrives (s : System α) : Action → List (Packet α)
  | .update _ _ _ => []
  | .deliver i => s.net[i]?.toList

namespace Rounds

/-- Is it an update of a share of the part? -/
def isUpdate (e : GroupPart) (packet : Packet α) : Bool :=
  packet.msg.type = .kUpdate ∧ packet.msg.dst.type = .kStub ∧ packet.proc = e.proc ∧ packet.msg.src.grp = e.grp

/-- Is it a request of the part for the slice? -/
def isRequest (c : Rounds α) (e : GroupPart) (idx : Nat) (packet : Packet α) : Bool :=
  packet.msg.type = .kUpdate ∧ packet.msg.dst.type = .kServer ∧ packet.msg.src = e.stubAddr ∧
    packet.msg.sliceId = c.slice idx

/-- Is it a response to the part for the slice? -/
def isResponse (c : Rounds α) (e : GroupPart) (idx : Nat) (packet : Packet α) : Bool :=
  packet.msg.type = .kRUpdate ∧ packet.msg.dst = e.stubAddr ∧ packet.msg.sliceId = c.slice idx

/-- The entry of a part after it began `rounds` rounds, by the packets that have arrived so far. -/
structure InRound (c : Rounds α) (put : Int) (s : System α) (log : List (Packet α)) (e : GroupPart)
    (entry : ParamEntry α) (p : Param α) (rounds : Int) : Prop where
  found : (s.procs e.proc).workerShard (hash e.grp c.owner) = some entry
  shares : ∃ rest, entry.shares = p :: rest
  /-- Every round takes an update of each share. -/
  updates : (log.countP (isUpdate e) : Int) = e.numLocal * rounds + entry.numUpdate
  few : 0 ≤ entry.numUpdate ∧ entry.numUpdate < e.numLocal
  /-- The stub sends one request for each slice in a round. -/
  requests : ∀ idx < c.sizes.length, ((log ++ s.net).countP (c.isRequest e idx) : Int) = rounds
  /-- The version moves with the last response of a round, by one. -/
  version : ∀ q ∈ entry.shares, q.version = put + rounds - if true ∈ p.pendingUpdate then 1 else 0

/-- A slice, for a part that began `rounds` rounds. -/
structure Served (c : Rounds α) (put : Int) (s : System α) (log : List (Packet α)) (e : GroupPart) (p : Param α)
    (rounds : Int) (idx : Nat) (q : Param α) : Prop where
  kept : ∃ kept, (s.procs (c.home idx)).serverShard (c.slice idx) = some kept ∧ kept.shares = [q]
  /-- Every request gets one response, but for the one that is under way or buffered. -/
  answered : (log ++ s.net).countP (c.isRequest e idx) = (log ++ s.net).countP (c.isResponse e idx) +
    (s.net.countP (c.isRequest e idx) +
      ((s.servers (c.dstGrp, c.server idx)).bufferRequests (c.slice idx)).countP fun msg => msg.src = e.stubAddr)
  version : q.localVersion = put + (log ++ s.net).countP (c.isResponse e idx)
  /-- The slice has the version of the round that is completed. -/
  completed : p.pendingUpdate[idx]? ≠ some true → q.localVersion = put + rounds

/-- All parts and slices after the packets of `log` have arrived. -/
def Outcome (c : Rounds α) (put : Int) (s : System α) (log : List (Packet α)) : Prop :=
  ∀ e ∈ c.parts, ∃ entry p rounds, c.InRound put s log e entry p rounds ∧
    ∀ idx < c.sizes.length, ∃ q, c.Served put s log e p rounds idx q

variable {c : Rounds α} {s : System α} {a : Control} {put : Int} {e : GroupPart} {idx : Nat} {signal : Signal}
  {packet : Packet α}

theorem stubAddr_iff (v : c.Valid) {e' : GroupPart} (mem : e ∈ c.parts) (mem' : e' ∈ c.parts) :
    e'.stubAddr = e.stubAddr ↔ e' = e :=
  ⟨fun same => List.inj_on_of_nodup_map v.distinct mem' mem same, fun same => same ▸ rfl⟩

theorem slice_iff {idx' : Nat} : c.slice idx' = c.slice idx ↔ idx' = idx := by
  unfold slice
  omega

theorem isUpdate_eq (v : c.Valid) (mem : e ∈ c.parts) (known : signal.Known c.plan) (means : c.Means signal packet) :
    (signal == .worker e) = isUpdate e packet := by
  cases signal with
  | worker e' =>
    have address : e'.stubAddr = e.stubAddr ↔ packet.proc = e.proc ∧ packet.msg.src.grp = e.grp := by
      rw [means.1, means.2.grp, stubAddr, stubAddr, Addr.mk.injEq]
      tauto
    have same := (stubAddr_iff v mem known).symm.trans address
    have type := means.2.type
    have dst := means.2.dst
    rw [Bool.eq_iff_iff, beq_iff_eq, isUpdate, decide_eq_true_eq, Signal.worker.injEq, same]
    tauto
  | request e' idx' =>
    have dst : packet.msg.dst.type = .kServer := by rw [means.2.dst]
    simp [isUpdate, dst]
  | response e' idx' version =>
    simp [isUpdate, means.2.type]

theorem isRequest_eq (v : c.Valid) (mem : e ∈ c.parts) (known : signal.Known c.plan) (means : c.Means signal packet) :
    (signal == .request e idx) = c.isRequest e idx packet := by
  cases signal with
  | worker e' => simp [isRequest, means.2.dst]
  | request e' idx' =>
    have dst : packet.msg.dst.type = .kServer := by rw [means.2.dst]
    rw [Bool.eq_iff_iff, beq_iff_eq, isRequest, decide_eq_true_eq, Signal.request.injEq, means.2.src, means.2.sliceId,
      stubAddr_iff v mem known.1, slice_iff]
    simp [means.2.type, dst]
  | response e' idx' version => simp [isRequest, means.2.type]

theorem isResponse_eq (v : c.Valid) (mem : e ∈ c.parts) (known : signal.Known c.plan) (means : c.Means signal packet) :
    Control.answers e idx signal = c.isResponse e idx packet := by
  cases signal with
  | worker e' => simp [isResponse, Control.answers, means.2.type]
  | request e' idx' => simp [isResponse, Control.answers, means.2.type]
  | response e' idx' version =>
    simp [isResponse, Control.answers, means.2.type, means.2.dst, means.2.sliceId, stubAddr_iff v mem known.1, slice_iff]

/-- What the control flow counts is counted in the processes. -/
theorem Sim.outcome {log : List Signal} {packets : List (Packet α)} (v : c.Valid) (sim : c.Sim s a)
    (logs : List.Forall₂ c.Means log packets) (inv : a.InStep c.plan put log) : c.Outcome put s packets := by
  have sent := List.rel_append logs sim.net
  have known : ∀ signal ∈ log ++ a.net, signal.Known c.plan := by
    intro signal mem
    rcases List.mem_append.mp mem with mem | mem
    · exact inv.counted.known signal mem
    · exact inv.wf.known signal mem
  intro e mem
  obtain ⟨entry, found, sits⟩ := sim.seat e mem
  obtain ⟨p, rest, shares, front⟩ := sits.front
  have ok := inv.wf.seat e mem
  have requested {idx : Nat} : (log ++ a.net).count (.request e idx) = (packets ++ s.net).countP (c.isRequest e idx) :=
    countP_forall₂ sent fun signal here packet means => isRequest_eq v mem (known signal here) means
  have answered {idx : Nat} : (log ++ a.net).countP (Control.answers e idx) =
      (packets ++ s.net).countP (c.isResponse e idx) :=
    countP_forall₂ sent fun signal here packet means => isResponse_eq v mem (known signal here) means
  refine ⟨entry, p, (a.seats e).round - put, ⟨found, ⟨rest, shares⟩, ?_, ?_, fun idx lt => ?_, fun q member => ?_⟩,
    fun idx lt => ?_⟩
  · have updates : log.count (.worker e) = packets.countP (isUpdate e) :=
      countP_forall₂ logs fun signal here packet means => isUpdate_eq v mem (inv.counted.known signal here) means
    rw [← updates, inv.counted.workers e mem, sits.numUpdate]
  · rw [sits.numUpdate]
    exact ⟨ok.nonneg, ok.few⟩
  · rw [← requested]
    exact inv.counted.requests e mem idx lt
  · rw [sits.versions q member, Seat.round, front.pending]
    omega
  · obtain ⟨kept, stored, desk⟩ := sim.desk idx lt
    obtain ⟨q, alone, -, version⟩ := desk.param
    have requests := inv.counted.requests e mem idx lt
    have responses := inv.counted.responses e mem idx lt
    have waiting := inv.waiting mem lt
    have flying : a.net.count (.request e idx) = s.net.countP (c.isRequest e idx) :=
      countP_forall₂ sim.net fun signal here packet means => isRequest_eq v mem (inv.wf.known signal here) means
    have buffered : (a.desks idx).buffer.count e =
        ((s.servers (c.dstGrp, c.server idx)).bufferRequests (c.slice idx)).countP fun msg => msg.src = e.stubAddr := by
      refine countP_forall₂ desk.buffer fun e' here msg source => ?_
      rw [Bool.eq_iff_iff, beq_iff_eq, decide_eq_true_eq, source.src,
        stubAddr_iff v mem ((inv.wf.desk idx lt).known e' here)]
    refine ⟨q, ⟨kept, stored, alone⟩, ?_, ?_, fun idle => ?_⟩
    · rw [← requested, ← answered, ← flying, ← buffered]
      omega
    · rw [version, ← answered, responses]
      omega
    · rw [version, inv.lock.idle e mem idx lt (front.pending ▸ idle)]
      omega

section Sync

variable [Field α]

omit [Field α] in
theorem Sim.arrives (sim : c.Sim s a) (action : Action) : List.Forall₂ c.Means (a.arrives action) (s.arrives action) := by
  cases action with
  | update e share step => exact .nil
  | deliver i =>
    rw [Control.arrives, System.arrives]
    cases here : a.net[i]? with
    | none =>
      have none : s.net[i]? = none := by
        rw [List.getElem?_eq_none_iff] at here ⊢
        rwa [← sim.net.length_eq]
      rw [none]
      exact .nil
    | some signal =>
      obtain ⟨packet, there, means⟩ := sim.means here
      rw [there]
      exact .cons means .nil

end Sync

/-! ## A group in two processes -/

end Rounds

end Singa
