import Singa.Neuralnet.NeuronLayer
import Singa.Neuralnet.SoftmaxGradient

/-!
# `BPWorker`

`TrainOneBatch` goes through the layers of the net and lets each compute its
feature, and then through them in the other direction and lets each compute its
gradient and update its params. A layer writes its own data, and the gradient of
its source.
-/

namespace Singa
set_option autoImplicit false

open Mshadow

variable {α : Type}

/-- What a layer of the net is. -/
inductive LayerKind (α : Type) where
  /-- A parser layer: its data are what it makes of its records. -/
  | parser (records : LayerBlob α)
  | neuron (layer : NeuronLayer α)
  | softmaxLoss (layer : SoftmaxLossLayer α)

/-- A layer with its sources, its params (`GetParams`) and the worker that runs it. -/
structure WorkerLayer (α : Type) where
  id : ℕ
  partitionId : ℕ
  kind : LayerKind α
  srclayers : List ℕ
  params : List ℕ

/-- The blobs of the net. Params that share have their data at the owner, and gradients of their own. -/
structure NetState (α : Type) where
  data : ℕ → LayerBlob α
  own : ℕ → LayerBlob α
  /-- `mutable_grad`: parser and loss layers have a null pointer. -/
  grad : ℕ → Option (LayerBlob α)
  param : ℕ → LayerBlob α
  paramGrad : ℕ → LayerBlob α
  history : ℕ → LayerBlob α
  /-- Loss and accuracy, as they were added to the metric. -/
  perf : List (α × α)

/-- Data, gradient and history of a param: what `Updater::Update` works on. -/
abbrev ParamBlobs (α : Type) := LayerBlob α × LayerBlob α × LayerBlob α

structure BPWorker (α : Type) where
  id : ℕ
  env : ℕ → FloatEnv α
  ops : FloatOps α
  /-- The owner of a param. -/
  owner : ℕ → ℕ
  /-- `updater_->Update(step, param)`, or nothing where the servers update. -/
  update : ℕ → ParamBlobs α → ParamBlobs α

namespace BPWorker

section Model

variable [Field α] [LinearOrder α] (w : BPWorker α)

/-- The data of the params of a layer. -/
def params (S : NetState α) (l : WorkerLayer α) : List (LayerBlob α) := l.params.map fun p => S.param (w.owner p)

/-- `layer->ComputeFeature(phase, perf)`. -/
def computeFeature (train : Bool) (S : NetState α) (l : WorkerLayer α) : Run (NetState α) :=
  match l.kind, l.srclayers with
  | .parser records, _ => .ok { S with data := Function.update S.data l.id records }
  | .neuron layer, src :: _ => do
    let (own, data) ← layer.computeFeature (w.env l.id) train (w.params S l) (S.own l.id) (S.data src) (S.data l.id)
    return { S with data := Function.update S.data l.id data, own := Function.update S.own l.id own }
  | .softmaxLoss layer, [src, label] => do
    let (layer, loss, accuracy) ← (({ layer with data := S.data l.id } : SoftmaxLossLayer α).computeFeature w.ops (S.data src)
      (S.data label)).result
    return { S with data := Function.update S.data l.id layer.data, perf := S.perf ++ [(loss, accuracy)] }
  | _, _ => .error .range

/-- The gradients of the params of a layer. -/
def assign (grads : ℕ → LayerBlob α) (params : List ℕ) (gparams : List (LayerBlob α)) : ℕ → LayerBlob α :=
  (params.zip gparams).foldl (fun grads pg => Function.update grads pg.1 pg.2) grads

/-- `layer->ComputeGradient(kTrain)`. -/
def computeGradient (S : NetState α) (l : WorkerLayer α) : Run (NetState α) :=
  match l.kind, l.srclayers with
  | .parser _, _ => .ok S
  | .neuron layer, src :: _ => do
    let grad ← deref (S.grad l.id)
    let (gparams, gsrc) ← layer.computeGradient (w.env l.id) (w.params S l) (S.own l.id) (S.data src) (S.data l.id) grad
      (l.params.map S.paramGrad) (S.grad src)
    return { S with grad := Function.update S.grad src gsrc, paramGrad := assign S.paramGrad l.params gparams }
  | .softmaxLoss layer, [src, label] => do
    let gsrc ← deref (S.grad src)
    let gsrc ← ({ layer with data := S.data l.id } : SoftmaxLossLayer α).computeGradient w.ops gsrc (S.data label)
    return { S with grad := Function.update S.grad src (some gsrc) }
  | _, _ => .error .range

/-- `Worker::Update`. -/
def updateParam (S : NetState α) (p : ℕ) : NetState α :=
  let (data, grad, history) := w.update p (S.param (w.owner p), S.paramGrad p, S.history p)
  { S with
    param := Function.update S.param (w.owner p) data
    paramGrad := Function.update S.paramGrad p grad
    history := Function.update S.history p history }

/-- One pass of the loop of `Backward`. -/
def backwardLayer (S : NetState α) (l : WorkerLayer α) : Run (NetState α) := do
  let S ← w.computeGradient S l
  return l.params.foldl w.updateParam S

/-- The layers of the net that the worker runs. -/
def layers (net : List (WorkerLayer α)) : List (WorkerLayer α) := net.filter fun l => l.partitionId = w.id

/-- `BPWorker::Forward`. -/
def forward (train : Bool) (net : List (WorkerLayer α)) (S : NetState α) : Run (NetState α) :=
  (w.layers net).foldlM (w.computeFeature train) S

/-- `BPWorker::Backward`. -/
def backward (net : List (WorkerLayer α)) (S : NetState α) : Run (NetState α) :=
  (w.layers net).reverse.foldlM w.backwardLayer S

/-- `BPWorker::TrainOneBatch`. -/
def trainOneBatch (net : List (WorkerLayer α)) (S : NetState α) : Run (NetState α) := do
  let S ← w.forward true net S
  w.backward net S

end Model

/-! ## What a layer writes -/

section Frame

variable [Field α] [LinearOrder α] {w : BPWorker α} {train : Bool} {S S' : NetState α} {l : WorkerLayer α}

/-- `ComputeFeature` writes the data and the blob of its own of one layer, and adds to the metric. -/
theorem computeFeature_frame (run : w.computeFeature train S l = .ok S') :
    S'.grad = S.grad ∧ S'.param = S.param ∧ S'.paramGrad = S.paramGrad ∧ S'.history = S.history ∧
      ∀ i ≠ l.id, S'.data i = S.data i ∧ S'.own i = S.own i := by
  unfold computeFeature at run
  split at run
  · cases run
    exact ⟨rfl, rfl, rfl, rfl, fun i other => ⟨Function.update_of_ne other _ _, rfl⟩⟩
  · obtain ⟨⟨own, data⟩, -, run⟩ := Run.do_ok.mp run
    cases run
    exact ⟨rfl, rfl, rfl, rfl, fun i other => ⟨Function.update_of_ne other _ _, Function.update_of_ne other _ _⟩⟩
  · obtain ⟨⟨layer, loss, accuracy⟩, -, run⟩ := Run.do_ok.mp run
    cases run
    exact ⟨rfl, rfl, rfl, rfl, fun i other => ⟨Function.update_of_ne other _ _, rfl⟩⟩
  · cases run

theorem forward_frame {net : List (WorkerLayer α)} (run : net.foldlM (w.computeFeature train) S = .ok S') :
    S'.grad = S.grad ∧ S'.param = S.param ∧ S'.paramGrad = S.paramGrad ∧ S'.history = S.history ∧
      ∀ i ∉ net.map WorkerLayer.id, S'.data i = S.data i ∧ S'.own i = S.own i := by
  induction net generalizing S with
  | nil =>
    cases run
    exact ⟨rfl, rfl, rfl, rfl, fun _ _ => ⟨rfl, rfl⟩⟩
  | cons l net ih =>
    rw [List.foldlM_cons] at run
    obtain ⟨next, first, rest⟩ := Run.do_ok.mp run
    obtain ⟨grad, param, paramGrad, history, same⟩ := computeFeature_frame first
    obtain ⟨grad', param', paramGrad', history', same'⟩ := ih rest
    refine ⟨grad'.trans grad, param'.trans param, paramGrad'.trans paramGrad, history'.trans history, fun i other => ?_⟩
    rw [List.map_cons, List.mem_cons, not_or] at other
    exact ⟨(same' i other.2).1.trans (same i other.1).1, (same' i other.2).2.trans (same i other.1).2⟩

end Frame

end BPWorker

/-! ## How the layers are connected -/

namespace WorkerLayer

/-- The layers whose data a layer reads. A parser layer has its records. -/
def sources (l : WorkerLayer α) : List ℕ :=
  match l.kind with
  | .parser _ => []
  | _ => l.srclayers

/-- The layer whose gradient a layer writes. -/
def target (l : WorkerLayer α) : Option ℕ := l.sources.head?

/-- The layer has a gradient, and may have params. -/
def isNeuron (l : WorkerLayer α) : Bool :=
  match l.kind with
  | .neuron _ => true
  | _ => false

def isParser (l : WorkerLayer α) : Bool :=
  match l.kind with
  | .parser _ => true
  | _ => false

end WorkerLayer

/-- The layers are in topological order, only neuron layers have gradients, and each gradient is written by one layer. -/
structure Wired (net : List (WorkerLayer α)) (grad : ℕ → Option (LayerBlob α)) : Prop where
  order : net.Pairwise fun a b => a.id ≠ b.id ∧ b.id ∉ a.sources
  apart : ∀ l ∈ net, l.id ∉ l.sources
  null : ∀ l ∈ net, l.isNeuron = false → grad l.id = none ∧ l.params = []
  input : ∀ l ∈ net, ∀ i, l.target = some i → grad i = none → ∀ l' ∈ net, l'.id = i → l'.isParser = true
  single : net.Pairwise fun a b => ∀ i, a.target = some i → b.target = some i → grad i = none
  fed : ∀ l ∈ net, grad l.id ≠ none → ∃ l' ∈ net, l'.target = some l.id
  params : (net.flatMap WorkerLayer.params).Nodup

theorem Wired.tail {l : WorkerLayer α} {net : List (WorkerLayer α)} {grad : ℕ → Option (LayerBlob α)}
    (wired : Wired (l :: net) grad) : Wired net grad := by
  obtain ⟨first, order⟩ := List.pairwise_cons.mp wired.order
  refine ⟨order, fun a mem => wired.apart a (List.mem_cons_of_mem l mem), fun a mem => wired.null a (List.mem_cons_of_mem l mem),
    fun a mem i reads none b listed => wired.input a (List.mem_cons_of_mem l mem) i reads none b (List.mem_cons_of_mem l listed),
    (List.pairwise_cons.mp wired.single).2, fun a mem there => ?_, ?_⟩
  · obtain ⟨b, listed, reads⟩ := wired.fed a (List.mem_cons_of_mem l mem) there
    rcases List.mem_cons.mp listed with rfl | listed
    · exact absurd (List.mem_of_mem_head? reads) (first a mem).2
    · exact ⟨b, listed, reads⟩
  · have := wired.params
    rw [List.flatMap_cons] at this
    exact (List.nodup_append.mp this).2.1

end Singa
