import Singa.Communication.Router

/-!
# The overflow check of the router

`nBufmsg_` goes up by one with every message that is kept, and starts again only
when nothing is kept any more. A flush does not take its messages off the
counter, so that while other ids still wait the counter is above the number of
messages that `bufmsg_` holds.
-/

namespace Singa
set_option autoImplicit false

namespace Router

variable {δ β : Type}

/-- The number of messages in a buffer. -/
def total (entries : List (Sigma fun _ : Int => List (Zmsg β))) : Nat := (entries.map fun e => e.2.length).sum

/-- The number of messages that `bufmsg_` holds. -/
def buffered (r : Router δ β) : Nat := total r.bufmsg.entries

/-- What `++nBufmsg_` starts from. -/
def counter (r : Router δ β) : Nat := if r.bufmsg.entries.length = 0 then 0 else r.nBufmsg

/-- After `m` was kept the counter is the number of messages kept, and the `CHECK_LE` fails only if these are
more than `bufsize_`. -/
def CountsBuffered (r : Router δ β) (m : Zmsg β) : Prop :=
  match r.send m with
  | .ok (r', _) => r'.nBufmsg = r'.buffered
  | .error _ => r.bufsize < r.buffered + 1

/-- The message of a call of `Send`. -/
def Event.sent? : Event δ β → Option (Zmsg β)
  | .send m => some m
  | .receive _ _ => none

/-- The messages sent to ids that nothing was received from. -/
def waiting (events : List (Event δ β)) : List (Zmsg β) :=
  (events.filterMap Event.sent?).filter fun m => (contact m.dst events).isNone

/-- A first message from an id sent what was kept for it, and something has been waiting ever since. -/
def Drifted (events : List (Event δ β)) : Prop :=
  ∃ before dealer m after, events = before ++ .receive dealer m :: after ∧ contact m.src before = none ∧
    sentTo m.src before ≠ [] ∧ ∀ n ≤ after.length, waiting (before ++ .receive dealer m :: after.take n) ≠ []

/-! ## Buffers -/

theorem total_kerase (id : Int) (entries : List (Sigma fun _ : Int => List (Zmsg β))) :
    total entries = ((entries.dlookup id).getD []).length + total (entries.kerase id) := by
  induction entries with
  | nil => rfl
  | cons e entries ih =>
    obtain ⟨other, kept⟩ := e
    by_cases same : id = other
    · subst same
      simp [total]
    · rw [List.dlookup_cons_ne _ _ same, List.kerase_cons_ne same]
      simp only [total, List.map_cons, List.sum_cons] at ih ⊢
      omega

theorem total_insert (buffer : AList fun _ : Int => List (Zmsg β)) (id : Int) (m : Zmsg β) :
    total (buffer.insert id ((buffer.lookup id).getD [] ++ [m])).entries = total buffer.entries + 1 := by
  have parts := total_kerase id buffer.entries
  rw [AList.entries_insert, total, List.map_cons, List.sum_cons, ← total, parts]
  simp only [List.length_append, List.length_singleton, AList.lookup]
  omega

/-- No message is held exactly when no id has a buffer. -/
theorem buffered_eq_zero {r : Router δ β} (kept : ∀ e ∈ r.bufmsg.entries, e.2 ≠ []) :
    r.buffered = 0 ↔ r.bufmsg.entries.length = 0 := by
  rw [List.length_eq_zero_iff, buffered]
  constructor
  · intro zero
    cases here : r.bufmsg.entries with
    | nil => rfl
    | cons e rest =>
      have some := List.length_pos_iff.mpr (kept e (by simp [here]))
      rw [here, total, List.map_cons, List.sum_cons] at zero
      omega
  · intro none
    rw [none]
    rfl

theorem total_erase (buffer : AList fun _ : Int => List (Zmsg β)) (id : Int) :
    total buffer.entries = ((buffer.lookup id).getD []).length + total (buffer.erase id).entries :=
  total_kerase id buffer.entries

/-! ## The two calls -/

section Calls

variable {r : Router δ β} {m : Zmsg β}

theorem send_unknown (unknown : r.id2addr.lookup m.dst = none) : r.send m =
    if r.counter + 1 ≤ r.bufsize then
      .ok ({ r with nBufmsg := r.counter + 1, bufmsg := r.bufmsg.insert m.dst ((r.bufmsg.lookup m.dst).getD [] ++ [m]) }, [])
    else .error .bufferSize := by
  unfold send
  rw [unknown]
  rfl

theorem receive_unknown (unknown : r.id2addr.lookup m.src = none) (dealer : δ) : (r.receive dealer m).1 =
    { r with id2addr := r.id2addr.insert m.src dealer, bufmsg := r.bufmsg.erase m.src } := by
  unfold receive
  rw [unknown]
  dsimp only
  cases kept : r.bufmsg.lookup m.src with
  | none =>
    have same : r.bufmsg.erase m.src = r.bufmsg := by
      refine AList.ext ?_
      exact List.kerase_of_notMem_keys (AList.lookup_eq_none.mp kept)
    rw [same]
  | some zmsgs => rfl

end Calls

/-! ## What waits -/

section Waiting

variable {events : List (Event δ β)} {m : Zmsg β} {dealer : δ} {id : Int}

theorem sentTo_eq (id : Int) (events : List (Event δ β)) :
    sentTo id events = (events.filterMap Event.sent?).filter fun m => m.dst = id := by
  induction events with
  | nil => rfl
  | cons e events ih =>
    cases e with
    | receive dealer m => exact ih
    | send m => by_cases here : m.dst = id <;> simpa [sentTo, Event.to, Event.sent?, here] using ih

theorem waiting_to (unknown : contact id events = none) :
    (waiting events).filter (fun m => m.dst = id) = sentTo id events := by
  rw [sentTo_eq, waiting, List.filter_filter]
  refine List.filter_congr fun m _ => ?_
  by_cases here : m.dst = id
  · simp [here, unknown]
  · simp [here]

theorem waiting_send : waiting (events ++ [.send m]) =
    waiting events ++ if contact m.dst events = none then [m] else [] := by
  unfold waiting
  rw [List.filterMap_append, List.filter_append]
  simp only [contact_send]
  cases here : contact m.dst events <;> simp [Event.sent?, here]

theorem waiting_receive_known {first : δ} (known : contact m.src events = some first) :
    waiting (events ++ [.receive dealer m]) = waiting events := by
  unfold waiting
  rw [List.filterMap_append]
  simp only [Event.sent?, List.filterMap_cons, List.filterMap_nil, List.append_nil, contact_receive]
  refine List.filter_congr fun n _ => ?_
  by_cases same : m.src = n.dst
  · rw [← same, known]
    rfl
  · simp [same]

theorem waiting_receive_first (unknown : contact m.src events = none) : waiting (events ++ [.receive dealer m]) =
    (waiting events).filter fun n => n.dst ≠ m.src := by
  unfold waiting
  rw [List.filterMap_append, List.filter_filter]
  simp only [Event.sent?, List.filterMap_cons, List.filterMap_nil, List.append_nil, contact_receive]
  refine List.filter_congr fun n _ => ?_
  by_cases same : n.dst = m.src
  · simp [same, unknown]
  · simp [same, Ne.symm same]

/-- A first message takes what was kept for its sender out of what waits. -/
theorem waiting_length_first (unknown : contact m.src events = none) (dealer : δ) : (waiting events).length =
    (sentTo m.src events).length + (waiting (events ++ [.receive dealer m])).length := by
  rw [waiting_receive_first unknown, ← waiting_to unknown]
  have parts := List.length_eq_length_filter_add (l := waiting events) fun n => decide (n.dst = m.src)
  simpa using parts

end Waiting

/-! ## Drift -/

section Drift

variable {events : List (Event δ β)}

theorem Drifted.waits (drifted : Drifted events) : waiting events ≠ [] := by
  obtain ⟨before, dealer, m, after, split, -, -, waits⟩ := drifted
  have last := waits after.length le_rfl
  rwa [List.take_length, ← split] at last

/-- A call of `Receive` that sends what was kept. -/
def Flushes (events : List (Event δ β)) (e : Event δ β) : Prop :=
  ∃ dealer m, e = .receive dealer m ∧ contact m.src events = none ∧ sentTo m.src events ≠ []

/-- A drift begins with a flush and lasts as long as something waits. -/
theorem drifted_snoc {e : Event δ β} :
    Drifted (events ++ [e]) ↔ waiting (events ++ [e]) ≠ [] ∧ (Drifted events ∨ Flushes events e) := by
  constructor
  · intro drifted
    refine ⟨drifted.waits, ?_⟩
    obtain ⟨before, dealer, m, after, split, unknown, kept, waits⟩ := drifted
    cases after using List.reverseRecOn with
    | nil =>
      obtain ⟨rfl, same⟩ := List.append_inj' split rfl
      exact .inr ⟨dealer, m, List.singleton_inj.mp same, unknown, kept⟩
    | append_singleton after last =>
      have shift : before ++ .receive dealer m :: (after ++ [last]) = (before ++ .receive dealer m :: after) ++ [last] := by
        simp
      rw [shift] at split
      obtain ⟨rfl, -⟩ := List.append_inj' split rfl
      refine .inl ⟨before, dealer, m, after, rfl, unknown, kept, fun n le => ?_⟩
      have here := waits n (by rw [List.length_append]; omega)
      rwa [List.take_append_of_le_length le] at here
  · rintro ⟨waits, ⟨before, dealer, m, after, rfl, unknown, kept, before'⟩ | ⟨dealer, m, rfl, unknown, kept⟩⟩
    · have shift : (before ++ .receive dealer m :: after) ++ [e] = before ++ .receive dealer m :: (after ++ [e]) := by simp
      refine ⟨before, dealer, m, after ++ [e], shift, unknown, kept, fun n le => ?_⟩
      by_cases early : n ≤ after.length
      · rw [List.take_append_of_le_length early]
        exact before' n early
      · rw [List.length_append, List.length_singleton] at le
        rw [List.take_of_length_le (by rw [List.length_append, List.length_singleton]; omega), ← shift]
        exact waits
    · refine ⟨events, dealer, m, [], rfl, unknown, kept, fun n _ => ?_⟩
      rwa [List.take_nil]

/-- The buffers hold what waits, and the counter is above that after a drift only. -/
structure Buffer (events : List (Event δ β)) (r : Router δ β) : Prop where
  kept : ∀ e ∈ r.bufmsg.entries, e.2 ≠ []
  total : r.buffered = (waiting events).length
  exact : ¬ Drifted events → r.counter = r.buffered
  above : Drifted events → r.buffered < r.counter

theorem Buffer.new (bufsize : Nat) : Buffer [] (new bufsize : Router δ β) where
  kept := by simp [Router.new]
  total := rfl
  exact _ := rfl
  above drifted := absurd rfl drifted.waits

variable {r : Router δ β} {m : Zmsg β}

/-- A message that is kept is counted. -/
theorem Buffer.keep (buffer : Buffer events r) (unknown : contact m.dst events = none) {r' : Router δ β}
    (counted : r'.nBufmsg = r.counter + 1)
    (inserted : r'.bufmsg = r.bufmsg.insert m.dst ((r.bufmsg.lookup m.dst).getD [] ++ [m])) :
    Buffer (events ++ [.send m]) r' := by
  have waits : waiting (events ++ [.send m]) = waiting events ++ [m] := by rw [waiting_send, if_pos unknown]
  have more : r'.buffered = r.buffered + 1 := by rw [buffered, inserted, total_insert, buffered]
  have some : waiting (events ++ [.send m]) ≠ [] := by simp [waits]
  have entries : r'.bufmsg.entries.length ≠ 0 := by
    rw [inserted, AList.entries_insert, List.length_cons]
    omega
  have counter : r'.counter = r.counter + 1 := by rw [Router.counter, if_neg entries, counted]
  have same : Drifted (events ++ [.send m]) ↔ Drifted events := by
    rw [drifted_snoc]
    refine ⟨fun h => h.2.resolve_right ?_, fun h => ⟨some, .inl h⟩⟩
    rintro ⟨dealer, n, other, -⟩
    cases other
  refine ⟨fun e mem => ?_, ?_, fun h => ?_, fun h => ?_⟩
  · rw [inserted, AList.entries_insert, List.mem_cons] at mem
    rcases mem with rfl | mem
    · simp
    · exact buffer.kept e ((List.kerase_sublist _ _).subset mem)
  · rw [more, buffer.total, waits, List.length_append, List.length_singleton]
  · rw [counter, more, buffer.exact (fun d => h (same.mpr d))]
  · have := buffer.above (same.mp h)
    omega

/-- A call that keeps and sends nothing. -/
theorem Buffer.idle (buffer : Buffer events r) {e : Event δ β} (waits : waiting (events ++ [e]) = waiting events)
    (quiet : ¬ Flushes events e) {r' : Router δ β} (count : r'.nBufmsg = r.nBufmsg) (same : r'.bufmsg = r.bufmsg) :
    Buffer (events ++ [e]) r' := by
  have drift : Drifted (events ++ [e]) ↔ Drifted events := by
    rw [drifted_snoc, waits]
    exact ⟨fun h => h.2.resolve_right quiet, fun h => ⟨h.waits, .inl h⟩⟩
  have buffers : r'.buffered = r.buffered := by rw [buffered, same, buffered]
  have counters : r'.counter = r.counter := by rw [Router.counter, same, count, Router.counter]
  refine ⟨by rw [same]; exact buffer.kept, by rw [buffers, waits, buffer.total], fun h => ?_, fun h => ?_⟩
  · rw [counters, buffers]
    exact buffer.exact fun d => h (drift.mpr d)
  · rw [counters, buffers]
    exact buffer.above (drift.mp h)

/-- A flush leaves the counter, unless nothing is kept any more. -/
theorem Buffer.flush (buffer : Buffer events r) {dealer : δ} (unknown : contact m.src events = none)
    (some : sentTo m.src events ≠ []) (kept : (r.bufmsg.lookup m.src).getD [] = sentTo m.src events) {r' : Router δ β}
    (count : r'.nBufmsg = r.nBufmsg) (erased : r'.bufmsg = r.bufmsg.erase m.src) :
    Buffer (events ++ [.receive dealer m]) r' := by
  have parts := total_erase r.bufmsg m.src
  rw [kept, ← erased] at parts
  have waits := waiting_length_first unknown dealer
  have total : r'.buffered = (waiting (events ++ [.receive dealer m])).length := by
    have whole := buffer.total
    unfold buffered at whole ⊢
    omega
  have fewer : r'.buffered < r.buffered := by
    have := List.length_pos_iff.mpr some
    unfold buffered
    omega
  have left : ∀ e ∈ r'.bufmsg.entries, e.2 ≠ [] := by
    intro e mem
    rw [erased] at mem
    exact buffer.kept e ((List.kerase_sublist _ _).subset mem)
  have drift : Drifted (events ++ [.receive dealer m]) ↔ waiting (events ++ [.receive dealer m]) ≠ [] := by
    rw [drifted_snoc]
    exact ⟨fun h => h.1, fun h => ⟨h, .inr ⟨dealer, m, rfl, unknown, some⟩⟩⟩
  have before : r.buffered ≤ r.counter := by
    by_cases drifted : Drifted events
    · exact (buffer.above drifted).le
    · exact (buffer.exact drifted).ge
  have nonempty : r.bufmsg.entries.length ≠ 0 := fun none => by
    have zero := (buffered_eq_zero buffer.kept).mpr none
    omega
  rw [Router.counter, if_neg nonempty] at before
  refine ⟨left, total, fun h => ?_, fun h => ?_⟩
  · have none : waiting (events ++ [.receive dealer m]) = [] := by
      by_contra waits
      exact h (drift.mpr waits)
    rw [none, List.length_nil] at total
    rw [Router.counter, if_pos ((buffered_eq_zero left).mp total), total]
  · have some' : r'.bufmsg.entries.length ≠ 0 := fun none => by
      have zero := (buffered_eq_zero left).mpr none
      exact drift.mp h (List.length_eq_zero_iff.mp (total.symm.trans zero))
    rw [Router.counter, if_neg some', count]
    omega

end Drift

/-! ## Runs -/

section Runs

variable {events : List (Event δ β)} {w w' : Wire δ β} {bufsize : Nat}

theorem Buffer.step (buffer : Buffer events w.router) (delivered : Delivered events w) {e : Event δ β}
    (pass : step w e = .ok w') : Buffer (events ++ [e]) w'.router := by
  cases e with
  | send m =>
    obtain ⟨⟨router, out⟩, sent, pass⟩ := Run.do_ok.mp pass
    cases pass
    cases here : contact m.dst events with
    | some addr =>
      rw [Router.send, delivered.known, here] at sent
      cases sent
      refine buffer.idle (by rw [waiting_send, here]; simp) ?_ rfl rfl
      rintro ⟨dealer, n, other, -⟩
      cases other
    | none =>
      rw [send_unknown ((delivered.known m.dst).trans here)] at sent
      split at sent
      · cases sent
        exact buffer.keep here rfl rfl
      · cases sent
  | receive dealer m =>
    obtain rfl : (⟨(w.router.receive dealer m).1, w.handed ++ (w.router.receive dealer m).2⟩ : Wire δ β) = w' :=
      Except.ok.inj pass
    dsimp only
    cases here : contact m.src events with
    | some addr =>
      rw [receive_known ((delivered.known m.src).trans here)]
      refine buffer.idle (waiting_receive_known here) ?_ rfl rfl
      rintro ⟨dealer', n, same, unknown, -⟩
      cases same
      rw [here] at unknown
      cases unknown
    | none =>
      have kept := (delivered.waiting m.src here).2
      rw [receive_unknown ((delivered.known m.src).trans here)]
      by_cases some : sentTo m.src events = []
      · have away : m.src ∉ w.router.bufmsg := by
          intro mem
          obtain ⟨zmsgs, found⟩ := Option.isSome_iff_exists.mp (AList.lookup_isSome.mpr mem)
          rw [some, found] at kept
          exact buffer.kept _ (AList.mem_lookup_iff.mp found) kept
        have same : w.router.bufmsg.erase m.src = w.router.bufmsg := AList.ext (List.kerase_of_notMem_keys away)
        have waits : waiting (events ++ [.receive dealer m]) = waiting events := by
          rw [waiting_receive_first here, List.filter_eq_self]
          intro n mem
          refine decide_eq_true fun same => ?_
          have sent : n ∈ sentTo m.src events := by
            rw [← waiting_to here]
            exact List.mem_filter.mpr ⟨mem, decide_eq_true same⟩
          rw [some] at sent
          cases sent
        refine buffer.idle waits ?_ rfl same
        rintro ⟨dealer', n, same, -, some'⟩
        cases same
        exact some' some
      · exact buffer.flush here some kept rfl rfl

theorem step_bufsize {e : Event δ β} (pass : step w e = .ok w') : w'.router.bufsize = w.router.bufsize := by
  cases e with
  | send m =>
    obtain ⟨⟨router, out⟩, sent, pass⟩ := Run.do_ok.mp pass
    cases pass
    cases here : w.router.id2addr.lookup m.dst with
    | some addr =>
      rw [Router.send, here] at sent
      cases sent
      rfl
    | none =>
      rw [send_unknown here] at sent
      split at sent <;> cases sent
      rfl
  | receive dealer m =>
    obtain rfl : (⟨(w.router.receive dealer m).1, w.handed ++ (w.router.receive dealer m).2⟩ : Wire δ β) = w' :=
      Except.ok.inj pass
    dsimp only
    cases here : w.router.id2addr.lookup m.src with
    | some addr => rw [receive_known here]
    | none => rw [receive_unknown here]

/-- What a run leaves of the buffers. -/
theorem run_buffer (h : run bufsize events = .ok w) :
    Delivered events w ∧ Buffer events w.router ∧ w.router.bufsize = bufsize := by
  refine Run.foldlM_inv (fun done w => Delivered done w ∧ Buffer done w.router ∧ w.router.bufsize = bufsize)
    (fun done e w w' inv pass => ?_) ⟨delivered_new bufsize, Buffer.new bufsize, rfl⟩ h
  obtain ⟨delivered, buffer, size⟩ := inv
  refine ⟨?_, buffer.step delivered pass, (step_bufsize pass).trans size⟩
  cases e with
  | send m => exact delivered.send pass
  | receive dealer m => exact delivered.receive pass

/-- **The overflow check counts what is buffered** unless a flush left other messages waiting and some have been
waiting since, or the buffer is full anyway. -/
theorem countsBuffered_iff {bufsize : Nat} {events : List (Event δ β)} {w : Wire δ β} {m : Zmsg β}
    (h : run bufsize events = .ok w) (unknown : contact m.dst events = none) :
    CountsBuffered w.router m ↔ ¬ Drifted events ∨ bufsize ≤ (waiting events).length := by
  obtain ⟨delivered, buffer, size⟩ := run_buffer h
  rw [CountsBuffered, send_unknown ((delivered.known m.dst).trans unknown), size, ← buffer.total]
  by_cases room : w.router.counter + 1 ≤ bufsize
  · rw [if_pos room]
    simp only [buffered, total_insert]
    rw [← buffered]
    by_cases drifted : Drifted events
    · have above := buffer.above drifted
      simp only [drifted, not_true_eq_false, false_or]
      omega
    · have exact := buffer.exact drifted
      simp only [drifted, not_false_eq_true, true_or, iff_true]
      omega
  · rw [if_neg room]
    simp only
    by_cases drifted : Drifted events
    · simp only [drifted, not_true_eq_false, false_or]
      omega
    · have exact := buffer.exact drifted
      simp only [drifted, not_false_eq_true, true_or, iff_true]
      omega

/-- Messages to 7 and 8 are kept, 7 is flushed, and another one to 8 comes. -/
def flushEvents : List (Event Nat Nat) := [.send ⟨1, 7, 10⟩, .send ⟨1, 8, 11⟩, .receive 3 ⟨7, 1, 12⟩]

/-- One message waits and one is added, as many as the buffer is for, and the check fails. -/
theorem flushEvents_not_counted : ∃ w, run 2 flushEvents = .ok w ∧ contact 8 flushEvents = none ∧
    ¬ CountsBuffered w.router ⟨1, 8, 13⟩ := by
  have all : (do
      let w ← run 2 flushEvents
      .ok (w.router.bufsize, w.router.buffered, (w.router.send ⟨1, 8, 13⟩).isOk)) = .ok (2, 1, false) := by
    decide +kernel
  obtain ⟨w, h, all⟩ := Run.do_ok.mp all
  simp only [Except.ok.injEq, Prod.mk.injEq] at all
  obtain ⟨bufsize, buffered, fails⟩ := all
  refine ⟨w, h, rfl, fun counts => ?_⟩
  unfold CountsBuffered at counts
  cases sent : w.router.send ⟨1, 8, 13⟩ with
  | ok next =>
    rw [sent] at fails
    cases fails
  | error e =>
    simp only [sent] at counts
    omega

/-- A flush that leaves nothing, and a message to another id. -/
theorem emptied_counted : ∃ w : Wire Nat Nat, run 2 [.send ⟨1, 7, 10⟩, .receive 3 ⟨7, 1, 12⟩] = .ok w ∧
    CountsBuffered w.router ⟨1, 8, 13⟩ := by
  obtain ⟨w, h⟩ : ∃ w : Wire Nat Nat, run 2 [.send ⟨1, 7, 10⟩, .receive 3 ⟨7, 1, 12⟩] = .ok w :=
    Run.exists_of_isOk (by decide +kernel)
  exact ⟨w, h, (countsBuffered_iff h rfl).mpr (.inl fun drifted => drifted.waits rfl)⟩

end Runs

end Router
end Singa
