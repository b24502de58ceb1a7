import Singa.Base.Events
import Singa.Neuralnet.CreateGraph

/-!
# `trainer/worker.cc`: blobs for bridge layers

One worker computes its layers pass after pass; its BridgeDst layers are fed by
other workers, which do not wait for it. `ReceiveBlobs` waits until one layer is
ready and stores every message that arrives meanwhile in the layer it names.
Events that cannot happen yet leave the state as it is.
-/

namespace Singa
set_option autoImplicit false

/-- A message of `SendBlobs`: the group of its source, and its two frames. -/
structure BlobMsg (β : Type) where
  grp : Int
  name : String
  blob : β
  deriving DecidableEq, Repr

/-- The net of the receiving worker, and for each sending worker the BridgeDst layers that its BridgeSrc layers
feed, in the order of its net. -/
structure BridgedNet where
  grpId : Int
  id : Int
  layers : List LayerProto
  feeds : Nat → List String
  nodup : (layers.map LayerProto.name).Nodup
  dst : ∀ s, ∀ name ∈ feeds s, ∃ layer ∈ layers,
    layer.name = name ∧ layer.type = .kBridgeDst ∧ layer.partitionId = id
  fed : ∀ layer ∈ layers, layer.type = .kBridgeDst → layer.partitionId = id → ∃ s, layer.name ∈ feeds s
  once : ∀ s, (feeds s).Nodup
  single : ∀ s t, ∀ name ∈ feeds s, name ∈ feeds t → s = t

/-- A BridgeDst layer that the worker computes. -/
def BridgedNet.OwnDst (net : BridgedNet) (layer : LayerProto) : Prop :=
  layer ∈ net.layers ∧ layer.type = .kBridgeDst ∧ layer.partitionId = net.id

/-- The receiving worker with the layers of its pass that are still to come, the senders with the layers still to
be fed in theirs, and the messages on the way from each sender. -/
structure Blobs (β : Type) where
  pass : Nat
  todo : List LayerProto
  data : String → β
  ready : String → Bool
  sendPass : Nat → Nat
  sendTodo : Nat → List String
  channel : Nat → List (BlobMsg β)

inductive BlobEvent where
  | send (s : Nat)
  | receive (s : Nat)
  | forward
  deriving DecidableEq, Repr

namespace Blobs

variable {β : Type}

/-- All `ready_` are false. -/
def init (net : BridgedNet) (data : String → β) : Blobs β :=
  ⟨0, net.layers, data, fun _ => false, fun _ => 0, net.feeds, fun _ => []⟩

/-- The loop of `Forward` is in `ReceiveBlobs` for this layer. -/
def waiting (net : BridgedNet) (b : Blobs β) : Option LayerProto :=
  match b.todo with
  | layer :: _ =>
    if layer.partitionId = net.id ∧ layer.type = .kBridgeDst ∧ b.ready layer.name = false then some layer else none
  | [] => none

/-- A pass of the loop of `ReceiveBlobs`, for the message that arrived. -/
def receiveBlob (net : BridgedNet) (b : Blobs β) (msg : BlobMsg β) : Run (Blobs β) :=
  if msg.grp ≠ net.grpId then .error .senderGroup
  else match net.layers.find? (·.name = msg.name) with
    | none => .error .nullPointer
    | some layer =>
      if layer.type = .kBridgeSrc ∨ layer.type = .kBridgeDst then
        .ok { b with
          data := Function.update b.data layer.name msg.blob
          ready := Function.update b.ready layer.name true }
      else .error .bridgeLayer

/-- `SendBlobs`: blob `blob name k` is the one of pass `k` for the layer. After its last BridgeSrc layer a sender
goes on to its next pass. -/
def send (net : BridgedNet) (blob : String → Nat → β) (b : Blobs β) (s : Nat) : Blobs β :=
  match b.sendTodo s with
  | name :: rest =>
    { b with
      sendTodo := Function.update b.sendTodo s rest
      channel := Function.update b.channel s (b.channel s ++ [⟨net.grpId, name, blob name (b.sendPass s)⟩]) }
  | [] =>
    { b with
      sendTodo := Function.update b.sendTodo s (net.feeds s)
      sendPass := Function.update b.sendPass s (b.sendPass s + 1) }

/-- A message of sender `s` arrives; it is taken while the worker waits. -/
def receive (net : BridgedNet) (b : Blobs β) (s : Nat) : Run (Blobs β) :=
  match b.waiting net, b.channel s with
  | some _, msg :: rest => receiveBlob net { b with channel := Function.update b.channel s rest } msg
  | _, _ => .ok b

/-- `Forward` goes on: `ComputeFeature` of the next layer, unless it is waited for. -/
def forward (net : BridgedNet) (b : Blobs β) : Blobs β :=
  match b.waiting net, b.todo with
  | some _, _ => b
  | none, [] => { b with pass := b.pass + 1, todo := net.layers }
  | none, layer :: rest =>
    if layer.partitionId = net.id ∧ layer.type = .kBridgeDst then
      { b with todo := rest, ready := Function.update b.ready layer.name false }
    else { b with todo := rest }

def step (net : BridgedNet) (blob : String → Nat → β) (b : Blobs β) : BlobEvent → Run (Blobs β)
  | .send s => .ok (b.send net blob s)
  | .receive s => b.receive net s
  | .forward => .ok (b.forward net)

/-- The layer has been computed in this pass. -/
def Computed (b : Blobs β) (name : String) : Prop := name ∉ b.todo.map LayerProto.name

instance (b : Blobs β) (name : String) : Decidable (b.Computed name) := inferInstanceAs (Decidable (name ∉ _))

/-- Every BridgeDst layer that was computed in this pass has the blob of this pass. -/
def Consumed (net : BridgedNet) (blob : String → Nat → β) (b : Blobs β) : Prop :=
  ∀ layer, net.OwnDst layer → b.Computed layer.name → b.data layer.name = blob layer.name b.pass

/-- What arrives from sender `s` is for a layer that has no blob of this pass yet. -/
def InTurn (net : BridgedNet) (b : Blobs β) (s : Nat) : Prop :=
  ∀ msg rest, b.channel s = msg :: rest → (b.waiting net).isSome →
    b.ready msg.name = false ∧ ¬ b.Computed msg.name

/-! ## Layers and messages -/

section Layers

variable {net : BridgedNet} {b b' : Blobs β} {blob : String → Nat → β} {s t : Nat} {name : String}

theorem eq_of_name {layer other : LayerProto} (mem : layer ∈ net.layers) (mem' : other ∈ net.layers)
    (same : layer.name = other.name) : layer = other :=
  List.inj_on_of_nodup_map net.nodup mem mem' same

theorem find_name {layer : LayerProto} (mem : layer ∈ net.layers) :
    net.layers.find? (·.name = layer.name) = some layer := by
  cases found : net.layers.find? (·.name = layer.name) with
  | none => exact absurd (List.find?_eq_none.mp found layer mem) (by simp)
  | some other =>
    have same := List.find?_some found
    rw [eq_of_name (List.mem_of_find?_eq_some found) mem (of_decide_eq_true same)]

/-- A layer that is fed is a BridgeDst layer of the worker. -/
theorem ownDst_of_fed (fed : name ∈ net.feeds s) : ∃ layer, net.OwnDst layer ∧ layer.name = name := by
  obtain ⟨layer, mem, same, type, pid⟩ := net.dst s name fed
  exact ⟨layer, ⟨mem, type, pid⟩, same⟩

theorem ownDst_of_name {layer : LayerProto} (mem : layer ∈ net.layers) (fed : layer.name ∈ net.feeds s) :
    net.OwnDst layer := by
  obtain ⟨other, own, same⟩ := ownDst_of_fed fed
  exact eq_of_name own.1 mem same ▸ own

/-- The message is for a layer that sender `s` feeds. -/
def FromSender (net : BridgedNet) (s : Nat) (msg : BlobMsg β) : Prop :=
  msg.grp = net.grpId ∧ msg.name ∈ net.feeds s

/-- The layers to be fed and those to be computed are the last ones of their nets, and the messages on the way
name layers that their sender feeds. -/
structure Places (net : BridgedNet) (b : Blobs β) : Prop where
  todo : b.todo <:+ net.layers
  sendTodo : ∀ s, b.sendTodo s <:+ net.feeds s
  named : ∀ s, ∀ msg ∈ b.channel s, FromSender net s msg

/-- A message to a layer of the net that is fed is stored there. -/
theorem receiveBlob_ok {msg : BlobMsg β} (grp : msg.grp = net.grpId) (fed : msg.name ∈ net.feeds s) :
    receiveBlob net b msg = .ok { b with
      data := Function.update b.data msg.name msg.blob
      ready := Function.update b.ready msg.name true } := by
  obtain ⟨layer, ⟨mem, type, -⟩, same⟩ := ownDst_of_fed fed
  unfold receiveBlob
  rw [if_neg (by simpa using grp), ← same, find_name mem]
  dsimp only
  rw [if_pos (Or.inr type)]

/-- What a step of the receiver is, unless it changes nothing. -/
theorem receive_ok (places : Places net b) (h : b.receive net s = .ok b') :
    b' = b ∨ ∃ msg rest, b.channel s = msg :: rest ∧ (b.waiting net).isSome ∧ b' = { b with
      channel := Function.update b.channel s rest
      data := Function.update b.data msg.name msg.blob
      ready := Function.update b.ready msg.name true } := by
  unfold receive at h
  split at h
  · rename_i layer msg rest wait here
    obtain ⟨grp, fed⟩ := places.named s msg (here ▸ List.mem_cons_self)
    rw [receiveBlob_ok grp fed] at h
    exact .inr ⟨msg, rest, here, by rw [wait]; rfl, (Except.ok.inj h).symm⟩
  · exact .inl (Except.ok.inj h).symm

theorem places_init (data : String → β) : Places net (init net data) where
  todo := List.suffix_rfl
  sendTodo _ := List.suffix_rfl
  named _ _ mem := nomatch mem

theorem Places.send (places : Places net b) (blob : String → Nat → β) (s : Nat) : Places net (b.send net blob s) := by
  unfold Blobs.send
  split
  · rename_i name rest here
    have part : name :: rest <:+ net.feeds s := here ▸ places.sendTodo s
    constructor
    · exact places.todo
    · apply (Function.forall_update_iff _ fun t todo => todo <:+ net.feeds t).mpr
      exact ⟨(List.suffix_cons name rest).trans part, fun t _ => places.sendTodo t⟩
    · apply (Function.forall_update_iff _ fun t msgs => ∀ msg ∈ msgs, FromSender net t msg).mpr
      refine ⟨fun msg mem => ?_, fun t _ => places.named t⟩
      rcases List.mem_append.mp mem with mem | mem
      · exact places.named s msg mem
      · rw [List.mem_singleton.mp mem]
        exact ⟨rfl, part.subset List.mem_cons_self⟩
  · constructor
    · exact places.todo
    · apply (Function.forall_update_iff _ fun t todo => todo <:+ net.feeds t).mpr
      exact ⟨List.suffix_rfl, fun t _ => places.sendTodo t⟩
    · exact places.named

theorem Places.receive (places : Places net b) (h : b.receive net s = .ok b') : Places net b' := by
  rcases receive_ok places h with rfl | ⟨msg, rest, here, -, rfl⟩
  · exact places
  · constructor
    · exact places.todo
    · exact places.sendTodo
    · apply (Function.forall_update_iff _ fun t msgs => ∀ msg ∈ msgs, FromSender net t msg).mpr
      exact ⟨fun other mem => places.named s other (here ▸ List.mem_cons_of_mem msg mem), fun t _ => places.named t⟩

theorem Places.forward (places : Places net b) : Places net (b.forward net) := by
  unfold Blobs.forward
  split
  · exact places
  · exact ⟨List.suffix_rfl, places.sendTodo, places.named⟩
  · rename_i layer rest wait here
    have part : rest <:+ net.layers := (List.suffix_cons layer rest).trans (here ▸ places.todo)
    split
    · exact ⟨part, places.sendTodo, places.named⟩
    · exact ⟨part, places.sendTodo, places.named⟩

end Layers

/-! ## What is on the way -/

/-- The messages for a layer are those with the blobs of the passes from `lo` to before `hi`. -/
def Queue (net : BridgedNet) (blob : String → Nat → β) (name : String) (lo hi : Nat) (msgs : List (BlobMsg β)) : Prop :=
  ∃ n, hi = lo + n ∧
    msgs.filter (·.name = name) = (List.range' lo n).map fun k => ⟨net.grpId, name, blob name k⟩

/-- The layer has got its blob of this pass. -/
def Taken (b : Blobs β) (name : String) : Prop := b.ready name = true ∨ b.Computed name

instance (b : Blobs β) (name : String) : Decidable (b.Taken name) := inferInstanceAs (Decidable (_ ∨ _))

/-- How many blobs of a layer have been stored, if each was in turn. -/
def received (b : Blobs β) (name : String) : Nat := if b.Taken name then b.pass + 1 else b.pass

/-- How many blobs of a layer have been sent. -/
def sent (b : Blobs β) (s : Nat) (name : String) : Nat :=
  if name ∈ b.sendTodo s then b.sendPass s else b.sendPass s + 1

/-- What holds while every blob is received in turn. -/
structure Inv (net : BridgedNet) (blob : String → Nat → β) (b : Blobs β) : Prop extends Places net b where
  queue : ∀ s, ∀ name ∈ net.feeds s, Queue net blob name (b.received name) (b.sent s name) (b.channel s)
  fresh : ∀ s, ∀ name ∈ net.feeds s, b.Computed name → b.ready name = false
  data : ∀ s, ∀ name ∈ net.feeds s, b.Taken name → b.data name = blob name b.pass

section Queue

variable {net : BridgedNet} {blob : String → Nat → β} {name : String} {lo hi : Nat} {msg : BlobMsg β}
  {msgs : List (BlobMsg β)}

theorem Queue.push (h : Queue net blob name lo hi msgs) :
    Queue net blob name lo (hi + 1) (msgs ++ [⟨net.grpId, name, blob name hi⟩]) := by
  obtain ⟨n, rfl, here⟩ := h
  refine ⟨n + 1, rfl, ?_⟩
  rw [List.filter_append, here, List.range'_concat, List.map_append]
  simp

theorem Queue.push_other (h : Queue net blob name lo hi msgs) (other : msg.name ≠ name) :
    Queue net blob name lo hi (msgs ++ [msg]) := by
  obtain ⟨n, more, here⟩ := h
  refine ⟨n, more, ?_⟩
  rw [List.filter_append, here]
  simp [other]

/-- The first message for the layer has the blob of pass `lo`. -/
theorem Queue.pop (h : Queue net blob msg.name lo hi (msg :: msgs)) :
    msg.blob = blob msg.name lo ∧ Queue net blob msg.name (lo + 1) hi msgs := by
  obtain ⟨n, more, here⟩ := h
  rw [List.filter_cons_of_pos (by simp)] at here
  cases n with
  | zero => cases here
  | succ n =>
    rw [List.range'_succ, List.map_cons] at here
    obtain ⟨first, rest⟩ := List.cons.inj here
    exact ⟨congrArg BlobMsg.blob first, n, by omega, rest⟩

theorem Queue.pop_other (h : Queue net blob name lo hi (msg :: msgs)) (other : msg.name ≠ name) :
    Queue net blob name lo hi msgs := by
  obtain ⟨n, more, here⟩ := h
  rw [List.filter_cons_of_neg (by simpa using other)] at here
  exact ⟨n, more, here⟩

end Queue

/-! ## Steps -/

section Steps

variable {net : BridgedNet} {b b' : Blobs β} {blob : String → Nat → β} {s t : Nat} {name : String}

theorem received_taken (taken : b.Taken name) : b.received name = b.pass + 1 := if_pos taken

theorem received_free (free : ¬ b.Taken name) : b.received name = b.pass := if_neg free

/-- A layer of which nothing changes has as many blobs as before. -/
theorem received_congr {c : Blobs β} (pass : c.pass = b.pass) (taken : c.Taken name ↔ b.Taken name) :
    c.received name = b.received name := by
  by_cases here : b.Taken name
  · rw [received_taken here, received_taken (taken.mpr here), pass]
  · rw [received_free here, received_free (mt taken.mp here), pass]

theorem sent_todo (todo : name ∈ b.sendTodo s) : b.sent s name = b.sendPass s := if_pos todo

theorem sent_done (done : name ∉ b.sendTodo s) : b.sent s name = b.sendPass s + 1 := if_neg done

theorem sent_congr {c : Blobs β} (pass : c.sendPass s = b.sendPass s)
    (todo : name ∈ c.sendTodo s ↔ name ∈ b.sendTodo s) : c.sent s name = b.sent s name := by
  by_cases here : name ∈ b.sendTodo s
  · rw [sent_todo here, sent_todo (todo.mpr here), pass]
  · rw [sent_done here, sent_done (mt todo.mp here), pass]

theorem inv_init (data : String → β) : Inv net blob (init net data) := by
  have todo {s : Nat} {name : String} (fed : name ∈ net.feeds s) : ¬ (init net data).Computed name := by
    obtain ⟨layer, own, rfl⟩ := ownDst_of_fed fed
    exact not_not_intro (List.mem_map_of_mem own.1)
  have free {s : Nat} {name : String} (fed : name ∈ net.feeds s) : ¬ (init net data).Taken name := by
    rintro (ready | computed)
    · cases ready
    · exact todo fed computed
  refine ⟨places_init data, fun s name fed => ⟨0, ?_, rfl⟩, fun s name fed computed => ?_, fun s name fed taken => ?_⟩
  · rw [received_free (free fed), sent_todo fed]
    rfl
  · exact absurd computed (todo fed)
  · exact absurd taken (free fed)

theorem Inv.send (inv : Inv net blob b) (s : Nat) : Inv net blob (b.send net blob s) := by
  have places := inv.toPlaces.send blob s
  refine ⟨places, fun t name fed => ?_, ?_, ?_⟩
  · have queue := inv.queue t name fed
    unfold Blobs.send
    cases here : b.sendTodo s with
    | cons first rest =>
      by_cases same : t = s
      · subst same
        have nodup : (first :: rest).Nodup := (net.once t).sublist (here ▸ inv.sendTodo t).sublist
        show Queue net blob name (b.received name) _ (Function.update b.channel t _ t)
        rw [Function.update_self]
        by_cases own : name = first
        · subst own
          rw [sent_todo (here ▸ List.mem_cons_self)] at queue
          rw [sent_done]
          · exact queue.push
          · show name ∉ Function.update b.sendTodo t rest t
            rw [Function.update_self]
            exact (List.nodup_cons.mp nodup).1
        · rw [sent_congr (b := b)]
          · exact queue.push_other (Ne.symm own)
          · rfl
          · show name ∈ Function.update b.sendTodo t rest t ↔ _
            rw [Function.update_self, here, List.mem_cons, or_iff_right own]
      · show Queue net blob name (b.received name) _ (Function.update b.channel s _ t)
        rw [Function.update_of_ne same, sent_congr (b := b)]
        · exact queue
        · rfl
        · show name ∈ Function.update b.sendTodo s rest t ↔ _
          rw [Function.update_of_ne same]
    | nil =>
      show Queue net blob name (b.received name) _ (b.channel t)
      by_cases same : t = s
      · subst same
        rw [sent_done (here ▸ List.not_mem_nil)] at queue
        rw [sent_todo]
        · show Queue net blob name _ (Function.update b.sendPass t _ t) _
          rw [Function.update_self]
          exact queue
        · show name ∈ Function.update b.sendTodo t _ t
          rw [Function.update_self]
          exact fed
      · rw [sent_congr (b := b)]
        · exact queue
        · exact Function.update_of_ne same ..
        · show name ∈ Function.update b.sendTodo s _ t ↔ _
          rw [Function.update_of_ne same]
  · unfold Blobs.send
    split
    · exact inv.fresh
    · exact inv.fresh
  · unfold Blobs.send
    split
    · exact inv.data
    · exact inv.data

theorem Inv.receive (inv : Inv net blob b) (turn : InTurn net b s) (h : b.receive net s = .ok b') :
    Inv net blob b' := by
  have places := inv.toPlaces.receive h
  rcases receive_ok inv.toPlaces h with rfl | ⟨msg, rest, here, wait, rfl⟩
  · exact inv
  · obtain ⟨unready, todo⟩ := turn msg rest here wait
    have fed : msg.name ∈ net.feeds s := (inv.named s msg (here ▸ List.mem_cons_self)).2
    have free : ¬ b.Taken msg.name := by
      rintro (ready | computed)
      · rw [unready] at ready
        cases ready
      · exact todo computed
    have queue := inv.queue s msg.name fed
    rw [here, received_free free] at queue
    obtain ⟨current, queue⟩ := queue.pop
    refine ⟨places, fun t name fed' => ?_, fun t name fed' computed => ?_, fun t name fed' taken => ?_⟩
    · by_cases same : name = msg.name
      · subst same
        obtain rfl := net.single s t msg.name fed fed'
        show Queue net blob msg.name _ (b.sent s msg.name) (Function.update b.channel s rest s)
        rw [Function.update_self, received_taken (.inl (Function.update_self ..))]
        exact queue
      · have keep := inv.queue t name fed'
        rw [received_congr (b := b)]
        · show Queue net blob name _ (b.sent t name) (Function.update b.channel s rest t)
          by_cases at_s : t = s
          · subst at_s
            rw [Function.update_self]
            rw [here] at keep
            exact keep.pop_other (Ne.symm same)
          · rw [Function.update_of_ne at_s]
            exact keep
        · rfl
        · apply or_congr_left
          show Function.update b.ready msg.name true name = true ↔ _
          rw [Function.update_of_ne same]
    · have other : name ≠ msg.name := by
        rintro rfl
        exact todo computed
      exact (Function.update_of_ne other ..).trans (inv.fresh t name fed' computed)
    · by_cases same : name = msg.name
      · rw [same]
        exact (Function.update_self ..).trans current
      · refine (Function.update_of_ne same ..).trans (inv.data t name fed' ?_)
        rcases taken with ready | computed
        · exact .inl ((Function.update_of_ne same ..).symm.trans ready)
        · exact .inr computed

/-- `Forward` starts the next pass when every layer has been computed. -/
theorem Inv.restart (inv : Inv net blob b) (done : b.todo = [])
    (places : Places net { b with pass := b.pass + 1, todo := net.layers }) :
    Inv net blob { b with pass := b.pass + 1, todo := net.layers } := by
  -- every layer has been computed, none is ready
  have computed (name : String) : b.Computed name := by
    unfold Computed
    rw [done]
    exact List.not_mem_nil
  have free {s : Nat} {name : String} (fed : name ∈ net.feeds s) :
      ¬ Taken { b with pass := b.pass + 1, todo := net.layers } name := by
    rintro (ready | before)
    · rw [inv.fresh s name fed (computed name)] at ready
      cases ready
    · obtain ⟨layer, own, rfl⟩ := ownDst_of_fed fed
      exact before (List.mem_map_of_mem own.1)
  refine ⟨places, fun s name fed => ?_, fun s name fed before => ?_, fun s name fed taken => ?_⟩
  · have queue := inv.queue s name fed
    rw [received_taken (.inr (computed name))] at queue
    rw [received_free (free fed)]
    exact queue
  · exact absurd (.inr before) (free fed)
  · exact absurd taken (free fed)

/-- A step inside a pass that takes no blob and loses none. -/
theorem Inv.keep (inv : Inv net blob b) {c : Blobs β} (places : Places net c) (pass : c.pass = b.pass)
    (data : c.data = b.data) (channel : c.channel = b.channel) (sent : ∀ s name, c.sent s name = b.sent s name)
    (taken : ∀ s, ∀ name ∈ net.feeds s, c.Taken name ↔ b.Taken name)
    (fresh : ∀ s, ∀ name ∈ net.feeds s, c.Computed name → c.ready name = false) : Inv net blob c := by
  refine ⟨places, fun s name fed => ?_, fresh, fun s name fed now => ?_⟩
  · rw [received_congr pass (taken s name fed), sent, channel]
    exact inv.queue s name fed
  · rw [data, pass]
    exact inv.data s name fed ((taken s name fed).mp now)

theorem Inv.forward (inv : Inv net blob b) : Inv net blob (b.forward net) := by
  have places := inv.toPlaces.forward
  unfold Blobs.forward at places ⊢
  cases wait : b.waiting net with
  | some layer => exact inv
  | none =>
    cases here : b.todo with
    | nil =>
      rw [wait, here] at places
      exact inv.restart here places
    | cons layer rest =>
      have nodup : ((layer :: rest).map LayerProto.name).Nodup :=
        net.nodup.sublist ((here ▸ inv.todo).sublist.map LayerProto.name)
      have gone : layer.name ∉ rest.map LayerProto.name := (List.nodup_cons.mp nodup).1
      have mem : layer ∈ net.layers := inv.todo.subset (here ▸ List.mem_cons_self)
      have later {name : String} (other : name ≠ layer.name) :
          name ∉ rest.map LayerProto.name ↔ b.Computed name := by
        unfold Computed
        rw [here, List.map_cons, List.mem_cons, or_iff_right other]
      rw [wait, here] at places
      dsimp only at places ⊢
      split
      · rename_i own
        rw [if_pos own] at places
        -- the layer was ready
        have ready : b.ready layer.name = true := by
          unfold waiting at wait
          rw [here] at wait
          dsimp only at wait
          by_contra unready
          rw [if_pos ⟨own.1, own.2, Bool.eq_false_iff.mpr unready⟩] at wait
          cases wait
        refine inv.keep places rfl rfl rfl (fun _ _ => rfl) (fun s name fed => ?_) fun s name fed computed => ?_
        · by_cases same : name = layer.name
          · subst same
            exact iff_of_true (.inr gone) (.inl ready)
          · refine or_congr ?_ (later same)
            show Function.update b.ready layer.name false name = true ↔ _
            rw [Function.update_of_ne same]
        · by_cases same : name = layer.name
          · rw [same]
            exact Function.update_self ..
          · refine (Function.update_of_ne same ..).trans ?_
            exact inv.fresh s name fed ((later same).mp computed)
      · rename_i foreign
        rw [if_neg foreign] at places
        have other {s : Nat} {name : String} (fed : name ∈ net.feeds s) : name ≠ layer.name := by
          rintro rfl
          exact foreign (ownDst_of_name mem fed).2.symm
        refine inv.keep places rfl rfl rfl (fun _ _ => rfl) (fun s name fed => ?_) fun s name fed computed => ?_
        · exact or_congr_right (later (other fed))
        · exact inv.fresh s name fed ((later (other fed)).mp computed)

end Steps

/-! ## Runs -/

/-- A step of the system; it ends with an abort. -/
def next (net : BridgedNet) (blob : String → Nat → β) (b : Blobs β) (e : BlobEvent) : Option (Blobs β) :=
  (step net blob b e).toOption

/-- `b` is a state of the run, which starts with the blobs `data` in the layers. -/
def Reached (net : BridgedNet) (blob : String → Nat → β) (data : String → β) (events : List BlobEvent) (b : Blobs β) :
    Prop :=
  Events.Reached (next net blob) (init net data) events b

/-- Event `e` of the run comes in state `b`. -/
def Comes (net : BridgedNet) (blob : String → Nat → β) (data : String → β) (events : List BlobEvent) (b : Blobs β)
    (e : BlobEvent) : Prop :=
  Events.Comes (next net blob) (init net data) events b e

section Runs

variable {net : BridgedNet} {blob : String → Nat → β} {data : String → β} {events : List BlobEvent} {b b' : Blobs β}
  {s : Nat}

theorem next_some {e : BlobEvent} (h : next net blob b e = some b') : step net blob b e = .ok b' := by
  unfold next at h
  cases here : step net blob b e with
  | ok after =>
    rw [here] at h
    exact congrArg Except.ok (Option.some.inj h)
  | error abort =>
    rw [here] at h
    cases h

theorem Reached.places (h : Reached net blob data events b) : Places net b := by
  refine Events.reached_inv (Places net) (places_init data) (fun b e b' _ places pass => ?_) h
  have pass := next_some pass
  cases e with
  | send s =>
    obtain rfl := Except.ok.inj pass
    exact places.send blob s
  | receive s => exact places.receive pass
  | forward =>
    obtain rfl := Except.ok.inj pass
    exact places.forward

theorem Reached.inv (turn : ∀ b s, Comes net blob data events b (.receive s) → InTurn net b s)
    (h : Reached net blob data events b) : Inv net blob b := by
  refine Events.reached_inv (Inv net blob) (inv_init data) (fun b e b' comes inv pass => ?_) h
  have pass := next_some pass
  cases e with
  | send s =>
    obtain rfl := Except.ok.inj pass
    exact inv.send s
  | receive s => exact inv.receive (turn b s comes) pass
  | forward =>
    obtain rfl := Except.ok.inj pass
    exact inv.forward

theorem Inv.consumed (inv : Inv net blob b) : Consumed net blob b := by
  intro layer own computed
  obtain ⟨s, fed⟩ := net.fed layer own.1 own.2.1 own.2.2
  exact inv.data s layer.name fed (.inr computed)

end Runs

end Blobs
end Singa
