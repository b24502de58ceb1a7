import Mathlib.Data.List.AList
import Singa.Utils.Abort

/-!
# `communication/socket.cc`: the router

A message to an id that nothing was received from yet is kept in `bufmsg_`. The
first message from an id stores the identity of its dealer and sends what was
kept for it. `handed` lists what `zmsg_send` was called on, with the identity in
front of it.
-/

namespace Singa
set_option autoImplicit false

/-- A message as the router sees it. -/
structure Zmsg (β : Type) where
  src : Int
  dst : Int
  body : β
  deriving DecidableEq, Repr

/-- `Router`; a dealer is known by its identity frame, of type `δ`. -/
structure Router (δ β : Type) where
  nBufmsg : Nat
  bufsize : Nat
  id2addr : AList fun _ : Int => δ
  bufmsg : AList fun _ : Int => List (Zmsg β)

namespace Router

variable {δ β : Type}

/-- `Router(bufsize)`. -/
def new (bufsize : Nat) : Router δ β := ⟨0, bufsize, ∅, ∅⟩

/-- `Router::Send`: the router, and what is handed to the socket. -/
def send (r : Router δ β) (m : Zmsg β) : Run (Router δ β × List (δ × Zmsg β)) :=
  match r.id2addr.lookup m.dst with
  | some addr => .ok (r, [(addr, m)])
  | none =>
    let nBufmsg := if r.bufmsg.entries.length = 0 then 0 else r.nBufmsg
    let kept := (r.bufmsg.lookup m.dst).getD []
    let r := { r with nBufmsg := nBufmsg + 1, bufmsg := r.bufmsg.insert m.dst (kept ++ [m]) }
    if r.nBufmsg ≤ r.bufsize then .ok (r, []) else .error .bufferSize

/-- `Router::Receive` of `m` from the socket: the router, and what is handed to the socket. The message itself
is returned as it is. -/
def receive (r : Router δ β) (dealer : δ) (m : Zmsg β) : Router δ β × List (δ × Zmsg β) :=
  match r.id2addr.lookup m.src with
  | none =>
    let r := { r with id2addr := r.id2addr.insert m.src dealer }
    match r.bufmsg.lookup m.src with
    | some kept => ({ r with bufmsg := r.bufmsg.erase m.src }, kept.map (dealer, ·))
    | none => (r, [])
  | some _ => (r, [])

/-- A call of the stub. -/
inductive Event (δ β : Type) where
  | send (m : Zmsg β)
  | receive (dealer : δ) (m : Zmsg β)

/-- A router and what it has handed to its socket. -/
structure Wire (δ β : Type) where
  router : Router δ β
  handed : List (δ × Zmsg β)

def step (w : Wire δ β) (e : Event δ β) : Run (Wire δ β) :=
  match e with
  | .send m => do
    let (router, out) ← w.router.send m
    .ok ⟨router, w.handed ++ out⟩
  | .receive dealer m =>
    let (router, out) := w.router.receive dealer m
    .ok ⟨router, w.handed ++ out⟩

/-- The calls `events` on a new router. -/
def run (bufsize : Nat) (events : List (Event δ β)) : Run (Wire δ β) :=
  events.foldlM step ⟨new bufsize, []⟩

/-! ## What was sent and received -/

/-- The message of a call, if it is sent to `id`. -/
def Event.to (id : Int) : Event δ β → Option (Zmsg β)
  | .send m => if m.dst = id then some m else none
  | .receive _ _ => none

/-- The dealer of a call, if something is received from `id`. -/
def Event.from? (id : Int) : Event δ β → Option δ
  | .send _ => none
  | .receive dealer m => if m.src = id then some dealer else none

/-- The messages sent to `id`, in order. -/
def sentTo (id : Int) (events : List (Event δ β)) : List (Zmsg β) := events.filterMap (Event.to id)

/-- The dealer that `id` was first received from. -/
def contact (id : Int) (events : List (Event δ β)) : Option δ := events.findSome? (Event.from? id)

/-- The messages to `id` that were handed to the socket. -/
def handedTo (id : Int) (handed : List (δ × Zmsg β)) : List (δ × Zmsg β) := handed.filter (·.2.dst = id)

/-- Everything sent to an id that has been received from is with its dealer, everything else is waiting. -/
structure Delivered (events : List (Event δ β)) (w : Wire δ β) : Prop where
  known : ∀ id, w.router.id2addr.lookup id = contact id events
  handed : ∀ id dealer, contact id events = some dealer →
    handedTo id w.handed = (sentTo id events).map (dealer, ·) ∧ w.router.bufmsg.lookup id = none
  waiting : ∀ id, contact id events = none →
    handedTo id w.handed = [] ∧ (w.router.bufmsg.lookup id).getD [] = sentTo id events

section

variable (id : Int) (events : List (Event δ β)) (dealer : δ) (m : Zmsg β)

@[simp] theorem sentTo_send :
    sentTo id (events ++ [.send m]) = sentTo id events ++ if m.dst = id then [m] else [] := by
  by_cases here : m.dst = id <;> simp [sentTo, Event.to, here]

@[simp] theorem sentTo_receive : sentTo id (events ++ [.receive dealer m]) = sentTo id events := by
  simp [sentTo, Event.to]

@[simp] theorem contact_send : contact id (events ++ [.send m]) = contact id events := by
  simp [contact, Event.from?]

@[simp] theorem contact_receive : contact id (events ++ [.receive dealer m]) =
    (contact id events).or (if m.src = id then some dealer else none) := by
  simp [contact, Event.from?]

theorem handedTo_append (handed out : List (δ × Zmsg β)) :
    handedTo id (handed ++ out) = handedTo id handed ++ handedTo id out :=
  List.filter_append _ _

/-- What waits for an id is sent to it. -/
theorem handedTo_kept : handedTo id ((sentTo m.src events).map (dealer, ·)) =
    if m.src = id then (sentTo m.src events).map (dealer, ·) else [] := by
  have sent : ∀ p ∈ sentTo m.src events, p.dst = m.src := by
    intro p mem
    obtain ⟨e, -, here⟩ := List.mem_filterMap.mp mem
    cases e with
    | send q =>
      rw [Event.to] at here
      split at here
      · cases here
        assumption
      · cases here
    | receive _ _ => cases here
  rw [handedTo]
  split
  · rename_i same
    refine List.filter_eq_self.mpr fun p mem => ?_
    obtain ⟨q, hq, rfl⟩ := List.mem_map.mp mem
    exact decide_eq_true ((sent q hq).trans same)
  · rename_i other
    refine List.filter_eq_nil_iff.mpr fun p mem here => other ?_
    obtain ⟨q, hq, rfl⟩ := List.mem_map.mp mem
    exact (sent q hq).symm.trans (of_decide_eq_true here)

end

/-! ## The two calls -/

section Calls

variable {r r' : Router δ β} {m : Zmsg β} {out : List (δ × Zmsg β)}

/-- A message to an id without a connection is kept behind the others. -/
theorem send_kept (unknown : r.id2addr.lookup m.dst = none) (h : r.send m = .ok (r', out)) :
    out = [] ∧ r'.id2addr = r.id2addr ∧
      r'.bufmsg = r.bufmsg.insert m.dst ((r.bufmsg.lookup m.dst).getD [] ++ [m]) := by
  unfold send at h
  rw [unknown] at h
  dsimp only at h
  by_cases room : (if r.bufmsg.entries.length = 0 then 0 else r.nBufmsg) + 1 ≤ r.bufsize
  · rw [if_pos room] at h
    obtain ⟨rfl, rfl⟩ := Prod.mk.inj (Except.ok.inj h)
    exact ⟨rfl, rfl, rfl⟩
  · rw [if_neg room] at h
    cases h

/-- The first message from an id stores its dealer and empties its buffer. -/
theorem receive_first (unknown : r.id2addr.lookup m.src = none) (dealer : δ) :
    (r.receive dealer m).1.id2addr = r.id2addr.insert m.src dealer ∧
      (r.receive dealer m).2 = ((r.bufmsg.lookup m.src).getD []).map (dealer, ·) ∧
      ∀ id, (r.receive dealer m).1.bufmsg.lookup id = if id = m.src then none else r.bufmsg.lookup id := by
  unfold receive
  rw [unknown]
  dsimp only
  cases kept : r.bufmsg.lookup m.src with
  | none =>
    refine ⟨rfl, rfl, fun id => ?_⟩
    by_cases same : id = m.src
    · rw [if_pos same, same]
      exact kept
    · rw [if_neg same]
  | some zmsgs =>
    refine ⟨rfl, rfl, fun id => ?_⟩
    by_cases same : id = m.src
    · rw [if_pos same, same]
      exact AList.lookup_erase m.src r.bufmsg
    · rw [if_neg same]
      exact AList.lookup_erase_ne same

theorem receive_known {addr dealer : δ} (known : r.id2addr.lookup m.src = some addr) :
    r.receive dealer m = (r, []) := by
  unfold receive
  rw [known]

end Calls

/-! ## Runs -/

variable {events : List (Event δ β)} {w w' : Wire δ β}

theorem delivered_new (bufsize : Nat) : Delivered [] (⟨new bufsize, []⟩ : Wire δ β) where
  known _ := rfl
  handed _ _ h := nomatch h
  waiting _ _ := ⟨rfl, rfl⟩

theorem Delivered.send (h : Delivered events w) {m : Zmsg β} (pass : step w (.send m) = .ok w') :
    Delivered (events ++ [.send m]) w' := by
  obtain ⟨⟨router, out⟩, sent, pass⟩ := Run.do_ok.mp pass
  obtain rfl := Except.ok.inj pass
  have known (id : Int) := h.known id
  cases here : contact m.dst events with
  | some addr =>
    -- the connection has been set up
    have direct : w.router.send m = .ok (w.router, [(addr, m)]) := by
      unfold Router.send
      rw [known, here]
    rw [direct] at sent
    obtain ⟨rfl, rfl⟩ := Prod.mk.inj (Except.ok.inj sent)
    refine ⟨fun id => ?_, fun id dealer found => ?_, fun id none => ?_⟩
    · rw [contact_send]
      exact known id
    · rw [contact_send] at found
      obtain ⟨handed, buffer⟩ := h.handed id dealer found
      refine ⟨?_, buffer⟩
      rw [handedTo_append, handed, sentTo_send, List.map_append]
      by_cases same : m.dst = id
      · obtain rfl : addr = dealer := by
          rw [same, found] at here
          exact (Option.some.inj here).symm
        simp [handedTo, same]
      · simp [handedTo, same]
    · rw [contact_send] at none
      obtain ⟨handed, buffer⟩ := h.waiting id none
      have other : m.dst ≠ id := by
        rintro rfl
        rw [here] at none
        cases none
      rw [handedTo_append, handed, sentTo_send, if_neg other, List.append_nil]
      exact ⟨by simp [handedTo, other], buffer⟩
  | none =>
    obtain ⟨rfl, addrs, buffers⟩ := send_kept ((known m.dst).trans here) sent
    refine ⟨fun id => ?_, fun id dealer found => ?_, fun id none => ?_⟩
    · rw [contact_send, addrs]
      exact known id
    · rw [contact_send] at found
      have other : id ≠ m.dst := by
        rintro rfl
        rw [here] at found
        cases found
      obtain ⟨handed, buffer⟩ := h.handed id dealer found
      rw [List.append_nil, sentTo_send, if_neg other.symm, List.append_nil, buffers, AList.lookup_insert_ne other]
      exact ⟨handed, buffer⟩
    · rw [contact_send] at none
      obtain ⟨handed, buffer⟩ := h.waiting id none
      rw [List.append_nil, sentTo_send, buffers]
      refine ⟨handed, ?_⟩
      by_cases same : id = m.dst
      · subst same
        rw [AList.lookup_insert, if_pos rfl, ← buffer]
        rfl
      · rw [AList.lookup_insert_ne same, if_neg (Ne.symm same), List.append_nil]
        exact buffer

theorem Delivered.receive (h : Delivered events w) {dealer : δ} {m : Zmsg β}
    (pass : step w (.receive dealer m) = .ok w') : Delivered (events ++ [.receive dealer m]) w' := by
  obtain rfl : (⟨(w.router.receive dealer m).1, w.handed ++ (w.router.receive dealer m).2⟩ : Wire δ β) = w' :=
    Except.ok.inj pass
  cases here : contact m.src events with
  | some addr =>
    rw [receive_known ((h.known m.src).trans here)]
    have same (id : Int) : contact id (events ++ [.receive dealer m]) = contact id events := by
      rw [contact_receive]
      cases found : contact id events with
      | some _ => rfl
      | none =>
        have other : m.src ≠ id := by
          rintro rfl
          rw [here] at found
          cases found
        rw [if_neg other]
        rfl
    refine ⟨fun id => ?_, fun id first found => ?_, fun id none => ?_⟩
    · rw [same]
      exact h.known id
    · rw [same] at found
      rw [List.append_nil, sentTo_receive]
      exact h.handed id first found
    · rw [same] at none
      rw [List.append_nil, sentTo_receive]
      exact h.waiting id none
  | none =>
    obtain ⟨addrs, out, buffers⟩ := receive_first ((h.known m.src).trans here) dealer
    obtain ⟨before, kept⟩ := h.waiting m.src here
    rw [kept] at out
    refine ⟨fun id => ?_, fun id first found => ?_, fun id none => ?_⟩
    · rw [contact_receive, addrs]
      by_cases same : id = m.src
      · subst same
        rw [AList.lookup_insert, here, if_pos rfl]
        rfl
      · rw [AList.lookup_insert_ne same, if_neg (Ne.symm same), Option.or_none]
        exact h.known id
    · rw [out, handedTo_append, handedTo_kept, sentTo_receive, buffers]
      rw [contact_receive] at found
      by_cases same : m.src = id
      · subst same
        rw [here, if_pos rfl] at found
        obtain rfl : dealer = first := Option.some.inj found
        rw [before, if_pos rfl, if_pos rfl, List.nil_append]
        exact ⟨rfl, rfl⟩
      · rw [if_neg same, Option.or_none] at found
        rw [if_neg same, if_neg (Ne.symm same), List.append_nil]
        exact h.handed id first found
    · rw [contact_receive] at none
      have other : m.src ≠ id := by
        rintro rfl
        rw [if_pos rfl] at none
        simp at none
      rw [if_neg other, Option.or_none] at none
      rw [out, handedTo_append, handedTo_kept, if_neg other, List.append_nil, sentTo_receive, buffers,
        if_neg (Ne.symm other)]
      exact h.waiting id none

/-- **The router delivers every message exactly once and in order**, whatever the order of the calls. -/
theorem run_delivered {bufsize : Nat} {events : List (Event δ β)} {w : Wire δ β}
    (h : run bufsize events = .ok w) : Delivered events w := by
  refine Run.foldlM_inv Delivered (fun done e w w' inv pass => ?_) (delivered_new bufsize) h
  cases e with
  | send m => exact inv.send pass
  | receive dealer m => exact inv.receive pass

/-- Two messages to 7 before and one after the first contact, and one to 8. -/
def contactEvents : List (Event Nat Nat) :=
  [.send ⟨1, 7, 10⟩, .send ⟨1, 8, 11⟩, .send ⟨1, 7, 12⟩, .receive 3 ⟨7, 1, 13⟩, .send ⟨1, 7, 14⟩]

theorem contactEvents_delivered : ∃ w, run 100 contactEvents = .ok w ∧ Delivered contactEvents w := by
  obtain ⟨w, h⟩ : ∃ w, run 100 contactEvents = .ok w := Run.exists_of_isOk (by decide +kernel)
  exact ⟨w, h, run_delivered h⟩

end Router
end Singa
