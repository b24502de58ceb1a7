import Singa.Trainer.DataParallel
import Singa.Trainer.GradMean
import Singa.Utils.Updater

/-!
# One step of a worker group

The workers of a group compute gradients from parts of one batch, the stubs of
their processes send them on, and the server updates its slice when it has all of
them. Where the gradients are averaged once, the updater is given the gradient of
the loss of the whole batch.
-/

namespace Singa
set_option autoImplicit false

open Memory Vec

/-! ## A round of requests, with any updater -/

section Round

variable {α : Type} [Field α]

/-- The updater keeps the number of elements of the slice. -/
def Env.Keeps (env : Env α) (p : Param α) : Prop :=
  ∀ step data grad, data.length = p.size → grad.length = p.size → (env.update step p.proto data grad p.history).1.length = p.size

variable {sizes locals : List ℕ} {start idx : ℕ} {places : List (Place α)} {h : Host α} {entry : ParamEntry α} {p : Param α}

end Round

/-! ## The gradients of the workers -/

namespace BPWorker

/-- The params of the worker that share with `o`. -/
def sharers (w : BPWorker ℝ) (net : List (WorkerLayer ℝ)) (o : ℕ) : List ℕ :=
  ((w.layers net).flatMap WorkerLayer.params).filter (w.owner · = o)

end BPWorker

namespace BPWorker

variable {w : BPWorker ℝ} {fltMin : ℝ} {n b o : ℕ} {net : List (WorkerLayer ℝ)} {S₀ S : NetState ℝ} {P' : ℕ → NetState ℝ}

end BPWorker

/-! ## Two processes with a worker each -/

/-- A param of two floats in one slice. -/
noncomputable def pairParam : Param ℝ :=
  { unitParam 0 with sliceSize := [2], data := ⟨2, 0, ⟨0, 0⟩⟩, grad := ⟨2, 0, ⟨1, 0⟩⟩ }

/-- A process with one of two shares, and the gradient of its worker. -/
noncomputable def Place.pair (data gradient : LayerBlob ℝ) : Place ℝ where
  trainer := ⟨⟨⟨1, 1, 1, 1⟩, fun _ _ => 1⟩, 0, [0]⟩
  mem := ⟨fun block offset => if block = 1 then gradient.dptr offset else data.dptr offset, 2⟩
  entry := ⟨0, -1, 1, 2, [pairParam]⟩
  msg := {}

/-- A server in another process, which has the same data. -/
noncomputable def Host.pair (data : LayerBlob ℝ) : Host ℝ where
  mem := ⟨fun block offset => if block = 1 then 0 else data.dptr offset, 2⟩
  shard := fun slice => if slice = 0 then some (.ofPut 2 pairParam) else none
  server := ⟨0, 0, [0], fun _ => [], fun _ => none, [], 0⟩

namespace BPWorker

end BPWorker
end Singa
