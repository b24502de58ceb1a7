import Singa.Trainer.GetVersion
import Singa.Trainer.GradMean
import Singa.Utils.Updater

/-!
# The multipliers of a parameter at its server

A put message carries the multipliers of the learning rate and of the weight
decay, and `HandlePutMsg` stores them in `proto_`; the `Setup` two lines below
replaces `proto_` by a default one. The server therefore trains every slice with
multipliers of 1, whatever the worker's configuration says.
-/

namespace Singa
set_option autoImplicit false

open Memory

variable {α : Type} [Field α]

namespace Host

/-- The stub puts a slice of `p`, and the server at `h` receives the message. -/
def putSlice (cluster : Cluster) (env : Env α) (h : Host α) (m : Mem α) (entry : ParamEntry α) (p : Param α)
    (copy : Bool) (idx : Nat) (version : Int) (src dst : Addr) : Run (Host α) := do
  let (p, msg) ← Trainer.genMsg .kPut m entry p copy idx
  let msg := { msg.setTrgt p.owner (p.sliceStart + idx : Nat) version with src, dst }
  let (h, _) ← h.receive cluster env msg.hop
  .ok h

omit [Field α] in
theorem genMsg_put {m : Mem α} {entry : ParamEntry α} {p p' : Param α} {copy : Bool} {idx : Nat} {msg : Msg α}
    (gen : Trainer.genMsg .kPut m entry p copy idx = .ok (p', msg)) : p' = p ∧ msg.type = .kPut := by
  rw [Trainer.genMsg] at gen
  split at gen
  · obtain ⟨put, made, gen⟩ := Run.do_ok.mp gen
    obtain ⟨⟨offset, size⟩, -, made⟩ := Run.do_ok.mp made
    cases gen
    cases copy with
    | true =>
      obtain ⟨floats, -, made⟩ := Run.do_ok.mp made
      cases made
      exact ⟨rfl, rfl⟩
    | false =>
      cases made
      exact ⟨rfl, rfl⟩
  · cases gen

/-- The server has the default multipliers for every slice that is put. -/
theorem putSlice_held {cluster : Cluster} {env : Env α} {h : Host α} {m : Mem α} {entry : ParamEntry α} {p : Param α} {copy : Bool} {idx : Nat} {version : Int}
    {src dst : Addr} {h' : Host α} (stored : putSlice cluster env h m entry p copy idx version src dst = .ok h') :
    ∃ q, h'.Held (p.sliceStart + idx : Nat) q ∧ q.proto.learningRateMultiplier = 1 ∧ q.proto.weightDecayMultiplier = 1 := by
  obtain ⟨⟨p', msg⟩, gen, stored⟩ := Run.do_ok.mp stored
  obtain ⟨⟨next, out⟩, received, stored⟩ := Run.do_ok.mp stored
  cases stored
  obtain ⟨rfl, type⟩ := genMsg_put gen
  let sent : Msg α := { msg.setTrgt p'.owner (p'.sliceStart + idx : Nat) version with src, dst }
  have typed : sent.hop.type = .kPut := type
  have target : sent.hop.sliceId = (p'.sliceStart + idx : Nat) := rfl
  obtain ⟨q, held, -, proto, -⟩ := receive_put_held typed target received
  exact ⟨q, held, by rw [proto]; rfl, by rw [proto]; rfl⟩

variable [LinearOrder α]

/-- From `h` on, the server trains the slice as `proto` says: it reports the same multipliers, and every
update uses the same learning rate and weight decay. -/
def TrainsAs (cluster : Cluster) (u : SGDUpdater α) (mix : Nat → α → α → α) (h : Host α) (slice : Int)
    (proto : ParamProto α) : Prop :=
  ∀ (msgs : List (Msg α)) (h' : Host α) (rounds : Nat),
    msgs.foldlM (serve cluster (u.env mix) slice) (h, 0) = .ok (h', rounds) → ∃ q : Param α, h'.Held slice q ∧
    q.proto.learningRateMultiplier = proto.learningRateMultiplier ∧
    q.proto.weightDecayMultiplier = proto.weightDecayMultiplier ∧
    ∀ step, u.lr step q.proto = u.lr step proto ∧ u.wd q.proto = u.wd proto ∧ u.update step q.proto = u.update step proto

variable {cluster : Cluster} {u : SGDUpdater α} {mix : Nat → α → α → α} {h : Host α} {slice : Int} {q : Param α}
  {proto : ParamProto α}

/-- What a slice is trained with is settled when it is put. -/
theorem trainsAs_iff (held : h.Held slice q) : TrainsAs cluster u mix h slice proto ↔
    q.proto.learningRateMultiplier = proto.learningRateMultiplier ∧
      q.proto.weightDecayMultiplier = proto.weightDecayMultiplier := by
  constructor
  · intro trains
    obtain ⟨q', held', lr, wd, -⟩ := trains [] h 0 rfl
    obtain ⟨entry, found, shares⟩ := held
    obtain ⟨entry', found', shares'⟩ := held'
    rw [found] at found'
    cases found'
    rw [shares] at shares'
    cases shares'
    exact ⟨lr, wd⟩
  · rintro ⟨lr, wd⟩ msgs h' rounds run
    obtain ⟨q', held', lasted⟩ := serve_lasted held run
    rw [← lasted.proto] at lr wd
    have rate (step : Int) : u.lr step q'.proto = u.lr step proto := by rw [UpdaterRates.lr, UpdaterRates.lr, lr]
    have decay : u.wd q'.proto = u.wd proto := by rw [UpdaterRates.wd, UpdaterRates.wd, wd]
    exact ⟨q', held', lr, wd, fun step => ⟨rate step, decay, u.update_congr (rate step) decay⟩⟩

/-- **Putting a parameter transfers its multipliers** exactly when both are 1. -/
theorem put_trainsAs_iff (cluster : Cluster) (u : SGDUpdater α) (mix : Nat → α → α → α) (h : Host α) (m : Mem α)
    (entry : ParamEntry α) (p : Param α) (copy : Bool) (idx : Nat) (version : Int) (src dst : Addr) {h' : Host α}
    (stored : putSlice cluster (u.env mix) h m entry p copy idx version src dst = .ok h') :
    TrainsAs cluster u mix h' (p.sliceStart + idx : Nat) p.proto ↔
      p.proto.learningRateMultiplier = 1 ∧ p.proto.weightDecayMultiplier = 1 := by
  obtain ⟨q, held, lr, wd⟩ := putSlice_held stored
  rw [trainsAs_iff held, lr, wd, eq_comm, eq_comm (a := (1 : α)) (b := p.proto.weightDecayMultiplier)]

/-! ## A doubled learning rate -/

section Example

open SyncSystem

/-- A parameter of one float. -/
def multiplied (lr : ℚ) : Param ℚ := { unitParam 0 with proto := { (.default : ParamProto ℚ) with learningRateMultiplier := lr } }

def sgd : SGDUpdater ℚ := ⟨⟨fun _ => 1, 0⟩, 0⟩

/-- A copy of the parameter, put to a fresh server. -/
def putCopy (lr : ℚ) : Run (Host ℚ) :=
  putSlice oneGroup (sgd.env fun _ x _ => x) (fresh 0) ⟨fun _ _ => 1, 2⟩ (.ofPut 1 (multiplied lr)) (multiplied lr) true 0 0
    ⟨0, 0, .kStub⟩ ⟨0, 0, .kServer⟩

theorem putCopy_one_trainsAs : ∃ h', putCopy 1 = .ok h' ∧
    TrainsAs oneGroup sgd (fun _ x _ => x) h' (0 : Nat) (multiplied 1).proto := by
  obtain ⟨h', stored⟩ := Run.exists_of_isOk (r := putCopy 1) (by decide +kernel)
  exact ⟨h', stored, (put_trainsAs_iff oneGroup sgd (fun _ x _ => x) (fresh 0) _ _ (multiplied 1) true 0 0 _ _ stored).mpr
    (by decide)⟩

theorem putCopy_two_not_trainsAs : ∃ h', putCopy 2 = .ok h' ∧
    ¬ TrainsAs oneGroup sgd (fun _ x _ => x) h' (0 : Nat) (multiplied 2).proto := by
  obtain ⟨h', stored⟩ := Run.exists_of_isOk (r := putCopy 2) (by decide +kernel)
  obtain ⟨q, held, lr, -⟩ := putSlice_held stored
  refine ⟨h', stored, fun trains => ?_⟩
  have same := ((trainsAs_iff held).mp trains).1
  rw [lr] at same
  exact absurd same (by decide)

end Example

end Host
end Singa
