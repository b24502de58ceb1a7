import Singa.Neuralnet.BatchParts
import Singa.Trainer.LocalUpdate

/-!
# Workers that share a batch

A net that is partitioned by its batch has the same layers several times, each
for its part of the samples. The loss of the batch is the mean of the losses of
the parts, whatever the params are, and so the gradient of the batch is the mean
of the gradients that the workers compute.
-/

namespace Singa
set_option autoImplicit false

open Mshadow LayerBlob

variable {α : Type}

/-! ## Parts of a net -/

/-- The layer for a part of the batch. -/
def LayerKind.part [Zero α] (kind : LayerKind α) (b i : ℕ) : LayerKind α :=
  match kind with
  | .parser records => .parser (records.part b i)
  | .neuron layer => .neuron (layer.batch b)
  | .softmaxLoss layer => .softmaxLoss (layer.batch b)

/-- The layer has been set up for `samples` samples. -/
def LayerKind.Samples (kind : LayerKind α) (samples : ℕ) : Prop :=
  match kind with
  | .parser records => records.Batched samples
  | .neuron layer => layer.Samples samples
  | .softmaxLoss layer => layer.batchsize = samples

def WorkerLayer.part [Zero α] (l : WorkerLayer α) (b i : ℕ) : WorkerLayer α :=
  { l with partitionId := i, kind := l.kind.part b i }

/-- The blobs for a part of the batch; the params are shared. -/
def NetState.part [Zero α] (S : NetState α) (b i : ℕ) : NetState α :=
  { S with
    data := fun id => (S.data id).part b i
    own := fun id => (S.own id).part b i
    grad := fun id => (S.grad id).map (·.part b i) }

/-- The worker for a part of the batch: it draws the numbers that are drawn for its samples. -/
def BPWorker.part (w : BPWorker α) (sizes : ℕ → ℕ) (i : ℕ) : BPWorker α :=
  { w with id := i, env := fun id => (w.env id).part (sizes id) i }

/-- How many elements the blob of its own of a layer has for a part. -/
def NetState.sizes (S : NetState α) (b id : ℕ) : ℕ := b * (S.own id).shape.tail.prod

namespace WorkerLayer

variable [Zero α] {l : WorkerLayer α} {b i : ℕ}

@[simp] theorem part_id : (l.part b i).id = l.id := rfl

@[simp] theorem part_params : (l.part b i).params = l.params := rfl

@[simp] theorem part_sources : (l.part b i).sources = l.sources := by
  obtain ⟨id, partitionId, kind, srclayers, params⟩ := l
  cases kind <;> rfl

@[simp] theorem part_target : (l.part b i).target = l.target := by
  rw [target, target, part_sources]

@[simp] theorem part_isNeuron : (l.part b i).isNeuron = l.isNeuron := by
  obtain ⟨id, partitionId, kind, srclayers, params⟩ := l
  cases kind <;> rfl

@[simp] theorem part_isParser : (l.part b i).isParser = l.isParser := by
  obtain ⟨id, partitionId, kind, srclayers, params⟩ := l
  cases kind <;> rfl

end WorkerLayer

/-- The parts are connected as the net is. -/
theorem Wired.part [Zero α] {net : List (WorkerLayer α)} {grad : ℕ → Option (LayerBlob α)} (wired : Wired net grad) (b i : ℕ) :
    Wired (net.map (·.part b i)) fun id => (grad id).map (·.part b i) := by
  refine ⟨?_, ?_, ?_, ?_, ?_, ?_, ?_⟩
  · exact List.pairwise_map.mpr (wired.order.imp fun h => by simpa using h)
  · simpa using wired.apart
  · simpa using wired.null
  · simpa using wired.input
  · exact List.pairwise_map.mpr (wired.single.imp fun h => by simpa using h)
  · simpa using wired.fed
  · rw [List.flatMap_map]
    exact wired.params

namespace BPWorker

theorem layers_part [Field α] [LinearOrder α] (w : BPWorker α) (sizes : ℕ → ℕ) (net : List (WorkerLayer α)) (b i : ℕ) :
    (w.part sizes i).layers (net.map (·.part b i)) = net.map (·.part b i) := by
  refine List.filter_eq_self.mpr fun l mem => ?_
  obtain ⟨a, -, rfl⟩ := List.mem_map.mp mem
  exact decide_eq_true rfl

/-- The net is set up for batches of `samples` samples. -/
structure BatchedNet (net : List (WorkerLayer α)) (S : NetState α) (samples : ℕ) : Prop where
  kind : ∀ l ∈ net, l.kind.Samples samples
  data : ∀ l ∈ net, (S.data l.id).Batched samples
  sources : ∀ l ∈ net, ∀ j ∈ l.sources, (S.data j).Batched samples
  mask : ∀ l ∈ net, ∀ pdrop, l.kind = .neuron (.dropout pdrop) → (S.own l.id).Batched samples

/-! ## `Forward` of the parts -/

variable {w : BPWorker ℝ} {fltMin : ℝ} {n b : ℕ} {sizes : ℕ → ℕ}

/-- The states of the parts in a state of the net: the mean of their losses is the loss. -/
def Parted (n b : ℕ) (T : NetState ℝ) (P : ℕ → NetState ℝ) : Prop :=
  (∀ i < n, ∃ perf, P i = { T.part b i with perf := perf }) ∧ n * lossSum T = ∑ i ∈ Finset.range n, lossSum (P i)

/-- What a loss layer checks. -/
def Labelled (fltMin : ℝ) (T : NetState ℝ) (l : WorkerLayer ℝ) : Prop :=
  match l.kind, l.srclayers with
  | .softmaxLoss layer, [src, label] =>
    (T.data l.id).count = layer.batchsize * layer.dim ∧ (T.data src).count = (T.data l.id).count ∧ layer.topk ≤ layer.dim ∧
      (T.data label).count = layer.batchsize ∧
      (∀ x ∈ (T.data label).values, 0 ≤ (FloatOps.real fltMin).toInt x ∧ (FloatOps.real fltMin).toInt x < layer.dim) ∧
      ∀ x ∈ (T.data label).values, (FloatOps.real fltMin).toInt x < 278
  | _, _ => True

theorem update_part {f : ℕ → LayerBlob ℝ} {id i : ℕ} (x : LayerBlob ℝ) :
    (fun j => (Function.update f id x j).part b i) = Function.update (fun j => (f j).part b i) id (x.part b i) := by
  funext j
  by_cases same : j = id
  · rw [same, Function.update_self, Function.update_self]
  · rw [Function.update_of_ne same, Function.update_of_ne same]

/-- **One layer**: the parts of the layer go on with the parts of the blobs. -/
theorem computeFeature_part (realOps : w.ops = FloatOps.real fltMin) {T T' : NetState ℝ} {P : ℕ → NetState ℝ} {l : WorkerLayer ℝ}
    (parted : Parted n b T P) (run : w.computeFeature true T l = .ok T') (kind : l.kind.Samples (n * b))
    (data : (T.data l.id).Batched (n * b)) (sources : ∀ j ∈ l.sources, (T.data j).Batched (n * b))
    (mask : ∀ pdrop, l.kind = .neuron (.dropout pdrop) → (T.own l.id).Batched (n * b)) (size : sizes l.id = T.sizes b l.id)
    (labelled : Labelled fltMin T l) :
    ∃ P', (∀ i < n, (w.part sizes i).computeFeature true (P i) (l.part b i) = .ok (P' i)) ∧ Parted n b T' P' := by
  obtain ⟨parts, mean⟩ := parted
  obtain ⟨id, partitionId, kind', srclayers, params⟩ := l
  cases kind' with
  | parser records =>
    obtain rfl := Except.ok.inj run
    refine ⟨fun i => { P i with data := Function.update (P i).data id (records.part b i) }, fun i _ => rfl, fun i lt => ?_, mean⟩
    obtain ⟨perf, here⟩ := parts i lt
    refine ⟨perf, ?_⟩
    dsimp only
    rw [here, NetState.part, NetState.part]
    dsimp only
    rw [update_part]
  | neuron layer =>
    cases srclayers with
    | nil => cases run
    | cons src srclayers =>
      obtain ⟨⟨own, feature⟩, made, last⟩ := Run.do_ok.mp run
      obtain rfl := Except.ok.inj last
      refine ⟨fun i => { P i with
        data := Function.update (P i).data id (feature.part b i), own := Function.update (P i).own id (own.part b i) },
        fun i lt => ?_, fun i lt => ?_, mean⟩
      · obtain ⟨perf, here⟩ := parts i lt
        have made' := NeuronLayer.computeFeature_part kind lt (fun pdrop same => mask pdrop (same ▸ rfl))
          (sources src List.mem_cons_self) data made
        have size' : ((T.own id).part b i).count = sizes id := count_part.trans size.symm
        rw [size'] at made'
        dsimp only
        rw [here]
        exact Run.do_ok.mpr ⟨(own.part b i, feature.part b i), made', rfl⟩
      · obtain ⟨perf, here⟩ := parts i lt
        refine ⟨perf, ?_⟩
        dsimp only
        rw [here, NetState.part, NetState.part]
        dsimp only
        rw [update_part, update_part]
  | softmaxLoss layer =>
    rcases srclayers with _ | ⟨src, _ | ⟨label, _ | _⟩⟩
    case cons.cons.nil =>
      obtain ⟨⟨layer', loss, accuracy⟩, made, last⟩ := Run.do_ok.mp run
      obtain rfl := Except.ok.inj last
      rw [realOps] at made
      obtain ⟨whole, same, top, batch, range, checked⟩ := labelled
      obtain ⟨losses, accuracies, returns, total⟩ := SoftmaxLossLayer.computeFeature_part kind whole same top batch range checked data
        (sources src List.mem_cons_self) (sources label (List.mem_cons_of_mem _ List.mem_cons_self)) made
      refine ⟨fun i => { P i with
        data := Function.update (P i).data id (layer'.data.part b i), perf := (P i).perf ++ [(losses i, accuracies i)] },
        fun i lt => ?_, fun i lt => ?_, ?_⟩
      · obtain ⟨perf, here⟩ := parts i lt
        dsimp only
        rw [here]
        refine Run.do_ok.mpr ⟨({ layer.batch b with data := layer'.data.part b i }, losses i, accuracies i), ?_, rfl⟩
        refine Eq.trans ?_ (returns i lt)
        rw [← realOps]
        rfl
      · obtain ⟨perf, here⟩ := parts i lt
        refine ⟨(P i).perf ++ [(losses i, accuracies i)], ?_⟩
        dsimp only
        rw [here, NetState.part, NetState.part]
        dsimp only
        rw [update_part]
      · have added : ∀ (S : NetState ℝ) (data : ℕ → LayerBlob ℝ) (loss accuracy : ℝ),
            lossSum { S with data := data, perf := S.perf ++ [(loss, accuracy)] } = lossSum S + loss := by
          intro S data loss accuracy
          simp [lossSum]
        rw [added, mul_add, mean, total, ← Finset.sum_add_distrib]
        exact Finset.sum_congr rfl fun i _ => (added _ _ _ _).symm
    all_goals cases run

theorem computeFeature_batched {samples : ℕ} {T T' : NetState ℝ} {l : WorkerLayer ℝ} (run : w.computeFeature true T l = .ok T')
    (kind : l.kind.Samples samples) (data : (T.data l.id).Batched samples) : (T'.data l.id).Batched samples := by
  obtain ⟨id, partitionId, kind', srclayers, params⟩ := l
  cases kind' with
  | parser records =>
    rw [← Except.ok.inj run]
    dsimp only
    rw [Function.update_self]
    exact kind
  | neuron layer =>
    cases srclayers with
    | nil => cases run
    | cons src srclayers =>
      obtain ⟨⟨own, feature⟩, made, last⟩ := Run.do_ok.mp run
      rw [← Except.ok.inj last]
      dsimp only
      rw [Function.update_self]
      exact data.congr (NeuronLayer.computeFeature_shape made)
  | softmaxLoss layer =>
    rcases srclayers with _ | ⟨src, _ | ⟨label, _ | _⟩⟩
    case cons.cons.nil =>
      obtain ⟨⟨layer', loss, accuracy⟩, made, last⟩ := Run.do_ok.mp run
      obtain ⟨prob, shape, here⟩ := SoftmaxLossLayer.predict_layer (SoftmaxLossLayer.computeFeature_returned made).1
      rw [← Except.ok.inj last]
      dsimp only
      rw [Function.update_self, here]
      exact data.congr shape
    all_goals cases run

/-- What a loss layer checks is there before the layer has been computed. -/
theorem Labelled.before {S T T' : NetState ℝ} {l : WorkerLayer ℝ} (labelled : Labelled fltMin S l) (agrees : Agrees w S T' l)
    (run : w.computeFeature true T l = .ok T') (apart : l.id ∉ l.sources) : Labelled fltMin T l := by
  obtain ⟨-, -, -, -, others⟩ := computeFeature_frame run
  obtain ⟨id, partitionId, kind, srclayers, params⟩ := l
  cases kind with
  | parser records => trivial
  | neuron layer => trivial
  | softmaxLoss layer =>
    rcases srclayers with _ | ⟨src, _ | ⟨label, _ | _⟩⟩
    case cons.cons.nil =>
      obtain ⟨⟨layer', loss, accuracy⟩, made, last⟩ := Run.do_ok.mp run
      obtain ⟨prob, shape, here⟩ := SoftmaxLossLayer.predict_layer (SoftmaxLossLayer.computeFeature_returned made).1
      have source : ∀ j ∈ [src, label], S.data j = T.data j := fun j mem =>
        (agrees.sources j mem).trans (others j fun same => apart (same ▸ mem)).1
      have size : (S.data id).count = (T.data id).count := by
        rw [agrees.data, ← Except.ok.inj last, here]
        dsimp only
        rw [Function.update_self]
        exact congrArg List.prod shape
      unfold Labelled at labelled ⊢
      dsimp only at labelled ⊢
      rw [size, source src List.mem_cons_self, source label (List.mem_cons_of_mem _ List.mem_cons_self)] at labelled
      exact labelled
    all_goals cases run

/-- The scores of a part of the batch. -/
theorem Scored.part {layer : SoftmaxLossLayer ℝ} {data src labels : LayerBlob ℝ} {gsrc : Option (LayerBlob ℝ)} {i : ℕ}
    (scored : Scored fltMin layer data src labels gsrc) (lt : i < n) (samples : layer.batchsize = n * b)
    (batchedData : data.Batched (n * b)) (batchedSrc : src.Batched (n * b)) (batchedLabels : labels.Batched (n * b)) :
    Scored fltMin (layer.batch b) (data.part b i) (src.part b i) (labels.part b i) (gsrc.map (·.part b i)) := by
  have pos : 0 < n := Nat.zero_lt_of_lt lt
  have sizeData : (data.part b i).count = b * layer.dim := count_part_of batchedData pos (samples ▸ scored.whole)
  have sizeSrc : (src.part b i).count = b * layer.dim :=
    count_part_of batchedSrc pos (scored.same.trans (samples ▸ scored.whole))
  have sizeLabels : (labels.part b i).count = b * 1 :=
    count_part_of batchedLabels pos (scored.batch.trans (samples.trans (mul_one _).symm))
  refine ⟨sizeData, scored.top, sizeLabels.trans (mul_one b), fun x mem => scored.labelled x (mem_part batchedLabels lt mem),
    fun x mem => scored.checked x (mem_part batchedLabels lt mem), sizeSrc.trans sizeData.symm, fun m row => ?_, fun g mem => ?_⟩
  · have sample : i * b + m < layer.batchsize := samples ▸ Grid.number_lt lt row
    obtain ⟨label, listed⟩ := dptr_part_label batchedLabels (scored.batch.trans samples) lt row
    have range := scored.labelled _ listed
    have below : ((FloatOps.real fltMin).toInt (labels.dptr (i * b + m))).toNat < layer.dim := by omega
    rw [label]
    exact (scored.likely _ sample).trans_eq (tensor_part sizeData row below).symm
  · obtain ⟨g, there, rfl⟩ := Option.mem_map.mp mem
    show b :: g.shape.tail = b :: data.shape.tail
    rw [scored.grad g there]

/-- A part of a layer has a derivative where the layer has one. -/
theorem Smooth.part {Still : ℕ → Prop} {S T T' : NetState ℝ} {l : WorkerLayer ℝ} {i : ℕ} {perf : List (ℝ × ℝ)}
    (smooth : w.Smooth fltMin Still S l) (lt : i < n) (agrees : Agrees w S T' l) (run : w.computeFeature true T l = .ok T')
    (apart : l.id ∉ l.sources) (kind : l.kind.Samples (n * b)) (data : (T.data l.id).Batched (n * b))
    (sources : ∀ j ∈ l.sources, (T.data j).Batched (n * b)) :
    (w.part sizes i).Smooth fltMin Still { S.part b i with perf := perf } (l.part b i) := by
  have batched : (S.data l.id).Batched (n * b) := by
    rw [agrees.data]
    exact computeFeature_batched run kind data
  obtain ⟨-, -, -, -, others⟩ := computeFeature_frame run
  have source : ∀ j ∈ l.sources, S.data j = T.data j := fun j mem =>
    (agrees.sources j mem).trans (others j fun same => apart (same ▸ mem)).1
  obtain ⟨id, partitionId, kind', srclayers, params⟩ := l
  cases kind' with
  | parser records => trivial
  | neuron layer =>
    cases srclayers with
    | nil => cases run
    | cons src srclayers =>
      obtain ⟨⟨own, feature⟩, made, -⟩ := Run.do_ok.mp run
      have here := source src List.mem_cons_self
      have smooth' : layer.Smooth (w.env id).fltMax (T.data src) := here ▸ smooth
      show (layer.batch b).Smooth (w.env id).fltMax ((S.data src).part b i)
      rw [here]
      exact NeuronLayer.Smooth.part smooth' kind lt (sources src List.mem_cons_self) made
  | softmaxLoss layer =>
    rcases srclayers with _ | ⟨src, _ | ⟨label, _ | _⟩⟩
    case cons.cons.nil =>
      obtain ⟨scored, still⟩ := smooth
      have listed : label ∈ [src, label] := List.mem_cons_of_mem _ List.mem_cons_self
      refine ⟨scored.part lt kind batched ?_ ?_, still⟩
      · exact (source src List.mem_cons_self).symm ▸ sources src List.mem_cons_self
      · exact (source label listed).symm ▸ sources label listed
    all_goals cases run

theorem Labelled.of_smooth {Still : ℕ → Prop} {S : NetState ℝ} {l : WorkerLayer ℝ} (smooth : w.Smooth fltMin Still S l) :
    Labelled fltMin S l := by
  obtain ⟨id, partitionId, kind, srclayers, params⟩ := l
  cases kind with
  | parser records => trivial
  | neuron layer => trivial
  | softmaxLoss layer =>
    rcases srclayers with _ | ⟨src, _ | ⟨label, _ | _⟩⟩
    case cons.cons.nil =>
      obtain ⟨scored, -⟩ := smooth
      exact ⟨scored.whole, scored.same, scored.top, scored.batch, scored.labelled, scored.checked⟩
    all_goals trivial

/-- The labels and the shapes are what a loss layer checks. -/
theorem Labelled.alike {Still : ℕ → Prop} {S S' : NetState ℝ} {l : WorkerLayer ℝ} (smooth : w.Smooth fltMin Still S l)
    (alike : Alike Still S S') : Labelled fltMin S' l := by
  have labelled := Labelled.of_smooth smooth
  obtain ⟨id, partitionId, kind, srclayers, params⟩ := l
  cases kind with
  | parser records => trivial
  | neuron layer => trivial
  | softmaxLoss layer =>
    rcases srclayers with _ | ⟨src, _ | ⟨label, _ | _⟩⟩
    case cons.cons.nil =>
      obtain ⟨-, still⟩ := smooth
      obtain ⟨whole, same, top, rest⟩ := labelled
      have counts : ∀ j, (S.data j).count = (S'.data j).count := fun j => congrArg List.prod (alike.data j)
      rw [alike.still label still] at rest
      exact ⟨(counts id).symm.trans whole, (counts src).symm.trans (same.trans (counts id)), top, rest⟩
    all_goals trivial

/-- **`Forward` of the parts**: each worker leaves its part of the blobs, and the mean of the losses is the loss. -/
theorem forward_part (realOps : w.ops = FloatOps.real fltMin) {S : NetState ℝ} (net : List (WorkerLayer ℝ)) :
    ∀ {T : NetState ℝ} {P : ℕ → NetState ℝ}, Parted n b T P → net.foldlM (w.computeFeature true) T = .ok S →
      (net.Pairwise fun a b => a.id ≠ b.id ∧ b.id ∉ a.sources) → (∀ l ∈ net, l.id ∉ l.sources) → BatchedNet net T (n * b) →
      (∀ l ∈ net, sizes l.id = T.sizes b l.id) → (∀ l ∈ net, Labelled fltMin S l) →
      (∃ P', (∀ i < n, (net.map (·.part b i)).foldlM ((w.part sizes i).computeFeature true) (P i) = .ok (P' i)) ∧ Parted n b S P') ∧
        ∀ (Still : ℕ → Prop), ∀ l ∈ net, w.Smooth fltMin Still S l → ∀ i < n, ∀ perf,
          (w.part sizes i).Smooth fltMin Still { S.part b i with perf := perf } (l.part b i) := by
  induction net with
  | nil =>
    intro T P parted run _ _ _ _ _
    obtain rfl : T = S := Except.ok.inj run
    exact ⟨⟨P, fun _ _ => rfl, parted⟩, fun _ l mem => by cases mem⟩
  | cons l net ih =>
    intro T P parted run order apart batched size labelled
    rw [List.foldlM_cons] at run
    obtain ⟨T', first, rest⟩ := Run.do_ok.mp run
    obtain ⟨before, order⟩ := List.pairwise_cons.mp order
    have agrees := agrees_after before rest
    have own := apart l List.mem_cons_self
    have kind := batched.kind l List.mem_cons_self
    have data := batched.data l List.mem_cons_self
    have sources := batched.sources l List.mem_cons_self
    obtain ⟨P₁, steps, parted₁⟩ := computeFeature_part realOps parted first kind data sources (batched.mask l List.mem_cons_self)
      (size l List.mem_cons_self) ((labelled l List.mem_cons_self).before agrees first own)
    obtain ⟨-, -, -, -, others⟩ := computeFeature_frame first
    have later : ∀ a ∈ net, T'.data a.id = T.data a.id ∧ T'.own a.id = T.own a.id :=
      fun a mem => others a.id (before a mem).1.symm
    have batched' : BatchedNet net T' (n * b) := by
      refine ⟨fun a mem => batched.kind a (List.mem_cons_of_mem l mem), fun a mem => ?_, fun a mem j read => ?_,
        fun a mem pdrop same => ?_⟩
      · rw [(later a mem).1]
        exact batched.data a (List.mem_cons_of_mem l mem)
      · by_cases same : j = l.id
        · subst same
          exact computeFeature_batched first kind data
        · rw [(others j same).1]
          exact batched.sources a (List.mem_cons_of_mem l mem) j read
      · rw [(later a mem).2]
        exact batched.mask a (List.mem_cons_of_mem l mem) pdrop same
    have size' : ∀ a ∈ net, sizes a.id = T'.sizes b a.id := by
      intro a mem
      rw [NetState.sizes, (later a mem).2]
      exact size a (List.mem_cons_of_mem l mem)
    obtain ⟨⟨P', runs, parted'⟩, smooth'⟩ := ih parted₁ rest order (fun a mem => apart a (List.mem_cons_of_mem l mem)) batched' size'
      fun a mem => labelled a (List.mem_cons_of_mem l mem)
    refine ⟨⟨P', fun i lt => ?_, parted'⟩, fun Still a mem smooth i lt perf => ?_⟩
    · rw [List.map_cons]
      exact Run.foldlM_cons_ok (steps i lt) (runs i lt)
    · rcases List.mem_cons.mp mem with rfl | mem
      · exact smooth.part lt agrees first own kind data sources
      · exact smooth' Still a mem smooth i lt perf

theorem fixed_part (net : List (WorkerLayer ℝ)) (b i : ℕ) : Fixed (net.map (·.part b i)) = Fixed net := by
  funext j
  refine propext ⟨fun fixed l mem same => ?_, fun fixed l mem same => ?_⟩
  · have := fixed (l.part b i) (List.mem_map_of_mem mem) same
    rwa [WorkerLayer.part_isParser] at this
  · obtain ⟨a, listed, rfl⟩ := List.mem_map.mp mem
    rw [WorkerLayer.part_isParser]
    exact fixed a listed same

/-- **The gradients of the parts add up to the derivative of the loss of the batch**, times the number of parts. -/
theorem parts_derivative (real : ∀ i, (w.env i).math = FloatMath.real) (realOps : w.ops = FloatOps.real fltMin)
    (served : ∀ p b, w.update p b = b) {net : List (WorkerLayer ℝ)} {S₀ S : NetState ℝ} {P' : ℕ → NetState ℝ}
    (wired : Wired (w.layers net) S₀.grad) (batched : BatchedNet (w.layers net) S₀ (n * b)) (forward : w.forward true net S₀ = .ok S)
    (smooth : ∀ l ∈ w.layers net, w.Smooth fltMin (Fixed (w.layers net)) S l)
    (runs : ∀ i < n, (w.part (S₀.sizes b) i).trainOneBatch ((w.layers net).map (·.part b i)) (S₀.part b i) = .ok (P' i))
    {o k : ℕ} (lt : k < (S₀.param o).count) :
    ∃ next : ℝ → NetState ℝ, (∀ x, w.forward true net (S₀.withParam o k x) = .ok (next x)) ∧
      HasDerivAt (fun x => n * lossSum (next x))
        (∑ i ∈ Finset.range n, (w.part (S₀.sizes b) i).gradientAt ((w.layers net).map (·.part b i)) (P' i) o k)
        ((S₀.param o).dptr k) := by
  unfold BPWorker.forward at forward ⊢
  set layers := w.layers net with layers_eq
  have first : Parted n b S₀ fun i => S₀.part b i := by
    refine ⟨fun i _ => ⟨S₀.perf, rfl⟩, ?_⟩
    have same : ∀ i, lossSum (S₀.part b i) = lossSum S₀ := fun _ => rfl
    simp [same]
  have stays : ∀ l ∈ layers, Fixed layers l.id → l.isParser = true := fun l mem fixed => fixed l mem rfl
  -- the net and its parts at other values of the element
  have moved : ∀ x, ∃ T, layers.foldlM (w.computeFeature true) (S₀.withParam o k x) = .ok T ∧ ∃ P : ℕ → NetState ℝ,
      (∀ i < n, (layers.map (·.part b i)).foldlM ((w.part (S₀.sizes b) i).computeFeature true) ((S₀.part b i).withParam o k x) =
        .ok (P i)) ∧ Parted n b T P := by
    intro x
    have alike : Alike (Fixed layers) S₀ (S₀.withParam o k x) := by
      refine ⟨fun _ => rfl, fun _ => rfl, fun o' => ?_, fun _ _ => rfl⟩
      by_cases here : o' = o
      · subst here
        rw [S₀.withParam_self]
        rfl
      · rw [S₀.withParam_of_ne here]
    obtain ⟨T, run, alike⟩ := forward_alike realOps layers alike forward wired.order wired.apart stays smooth
    have start : Parted n b (S₀.withParam o k x) fun i => (S₀.part b i).withParam o k x := ⟨fun i _ => ⟨S₀.perf, rfl⟩, first.2⟩
    obtain ⟨parts, -⟩ := forward_part realOps layers start run wired.order wired.apart
      ⟨batched.kind, batched.data, batched.sources, batched.mask⟩ (fun _ _ => rfl)
      fun l mem => Labelled.alike (smooth l mem) alike
    exact ⟨T, run, parts⟩
  choose next nextRun P partRun parted using moved
  -- each part has its derivative
  obtain ⟨⟨P₀, run₀, parted₀⟩, smooth₀⟩ := forward_part realOps layers first forward wired.order wired.apart batched
    (fun _ _ => rfl) fun l mem => Labelled.of_smooth (smooth l mem)
  have each : ∀ i < n, HasDerivAt (fun x => lossSum (P x i))
      ((w.part (S₀.sizes b) i).gradientAt (layers.map (·.part b i)) (P' i) o k) ((S₀.param o).dptr k) := by
    intro i lt'
    obtain ⟨S₁, forward₁, backward₁⟩ := Run.do_ok.mp (runs i lt')
    rw [BPWorker.backward, backward_served (w := w.part (S₀.sizes b) i) served] at backward₁
    have own := layers_part w (S₀.sizes b) layers b i
    have same : S₁ = P₀ i := by
      rw [BPWorker.forward, own] at forward₁
      exact Except.ok.inj (forward₁.symm.trans (run₀ i lt'))
    obtain ⟨perf, here⟩ := parted₀.1 i lt'
    have smooth₁ : ∀ l ∈ (w.part (S₀.sizes b) i).layers (layers.map (·.part b i)),
        (w.part (S₀.sizes b) i).Smooth fltMin (Fixed ((w.part (S₀.sizes b) i).layers (layers.map (·.part b i)))) S₁ l := by
      rw [own, fixed_part, same, here]
      intro l mem
      obtain ⟨a, listed, rfl⟩ := List.mem_map.mp mem
      exact smooth₀ _ a listed (smooth a listed) i lt' perf
    have wired₁ : Wired ((w.part (S₀.sizes b) i).layers (layers.map (·.part b i))) (S₀.part b i).grad := by
      rw [own]
      exact wired.part b i
    obtain ⟨next₁, nextRun₁, derivative₁⟩ := gradient_is_derivative (w := w.part (S₀.sizes b) i) real realOps wired₁ forward₁ smooth₁
      backward₁ lt
    have known : ∀ x, next₁ x = P x i := by
      intro x
      have := nextRun₁ x
      rw [BPWorker.forward, own] at this
      exact Except.ok.inj (this.symm.trans (partRun x i lt'))
    simp only [known] at derivative₁
    exact derivative₁
  refine ⟨next, nextRun, ?_⟩
  simp only [fun x => (parted x).2]
  exact HasDerivAt.fun_sum fun i mem => each i (Finset.mem_range.mp mem)

/-- **The gradient of a batch is the mean of the gradients of its parts**: workers that run equal parts of the batch on one
copy of the params compute, on the average, the gradient that one worker computes from the whole batch. -/
theorem gradient_parts (real : ∀ i, (w.env i).math = FloatMath.real) (realOps : w.ops = FloatOps.real fltMin)
    (served : ∀ p b, w.update p b = b) {net : List (WorkerLayer ℝ)} {S₀ S' : NetState ℝ} {P' : ℕ → NetState ℝ}
    (wired : Wired (w.layers net) S₀.grad) (batched : BatchedNet (w.layers net) S₀ (n * b)) (run : w.trainOneBatch net S₀ = .ok S')
    (smooth : ∀ S, w.forward true net S₀ = .ok S → ∀ l ∈ w.layers net, w.Smooth fltMin (Fixed (w.layers net)) S l)
    (runs : ∀ i < n, (w.part (S₀.sizes b) i).trainOneBatch ((w.layers net).map (·.part b i)) (S₀.part b i) = .ok (P' i))
    {o k : ℕ} (lt : k < (S₀.param o).count) :
    n * w.gradientAt net S' o k =
      ∑ i ∈ Finset.range n, (w.part (S₀.sizes b) i).gradientAt ((w.layers net).map (·.part b i)) (P' i) o k := by
  obtain ⟨S, forward, backward⟩ := Run.do_ok.mp run
  rw [BPWorker.backward, backward_served served] at backward
  obtain ⟨next, nextRun, derivative⟩ := gradient_is_derivative real realOps wired forward (smooth S forward) backward lt
  obtain ⟨next', nextRun', derivative'⟩ := parts_derivative real realOps served wired batched forward (smooth S forward) runs lt
  have same : next' = next := funext fun x => Except.ok.inj ((nextRun' x).symm.trans (nextRun x))
  rw [same] at derivative'
  exact (derivative.const_mul (n : ℝ)).unique derivative'

/-! ## Two workers of a tiny net -/

theorem zeros_part (samples b i : ℕ) (rest : List ℕ) : (zeros (samples :: rest)).part b i = zeros (b :: rest) := by
  have zero : ∀ k, (zeros (samples :: rest)).dptr k = 0 := by
    intro k
    simp [LayerBlob.dptr, zeros]
  refine LayerBlob.ext rfl ?_
  unfold LayerBlob.part
  simp only [zero]
  rw [List.map_const', List.length_range]
  exact congrArg (List.replicate · 0) List.prod_cons.symm

/-- The samples of a part. -/
def Batch.part {samples : ℕ} (batch : Batch samples) (b i : ℕ) : Batch b where
  labels := batch.labels.part b i
  numbers := batch.numbers.part b i
  labelShape := by simp [LayerBlob.part, batch.labelShape]
  numberShape := by simp [LayerBlob.part, batch.numberShape]
  classes := by
    intro label mem
    obtain ⟨k, -, rfl⟩ := List.mem_map.mp mem
    by_cases inside : i * (b * batch.labels.shape.tail.prod) + k < batch.labels.count
    · exact batch.classes _ (LayerBlob.dptr_mem inside)
    · exact .inl (batch.labels.dptr_of_le (not_lt.mp inside))

theorem tinyNet_part {samples : ℕ} (batch : Batch samples) (partitionId b i : ℕ) :
    (tinyNet batch partitionId).map (·.part b i) = tinyNet (batch.part b i) i := rfl

theorem tinyState_part (samples b i : ℕ) : (tinyState samples).part b i = tinyState b := by
  have grad : (fun id => ((tinyState samples).grad id).map (·.part b i)) = (tinyState b).grad := by
    funext id
    by_cases neuron : id = 2 ∨ id = 3
    · simp [tinyState, neuron, zeros_part]
    · simp [tinyState, neuron]
  rw [NetState.part, grad]
  simp only [tinyState, zeros_part]

theorem tiny_batched {samples : ℕ} (batch : Batch samples) : BatchedNet (tinyNet batch 0) (tinyState samples) samples := by
  refine ⟨fun l mem => ?_, fun _ _ => rfl, fun _ _ _ _ => rfl, fun _ _ _ _ => rfl⟩
  simp only [tinyNet, List.mem_cons, List.not_mem_nil, or_false] at mem
  rcases mem with rfl | rfl | rfl | rfl | rfl
  · exact congrArg List.head? batch.labelShape
  · exact congrArg List.head? batch.numberShape
  all_goals rfl

theorem tiny_layers_part (i : ℕ) :
    (servedWorker.layers (tinyNet twoSamples 0)).map (·.part 1 i) = tinyNet (twoSamples.part 1 i) i := by
  have layers : servedWorker.layers (tinyNet twoSamples 0) = tinyNet twoSamples 0 := tiny_layers twoSamples
  rw [layers, tinyNet_part]

/-- The worker of a part runs its sample. -/
theorem tiny_part_runs (i : ℕ) : ∃ T, (servedWorker.part ((tinyState (2 * 1)).sizes 1) i).trainOneBatch
    (tinyNet (twoSamples.part 1 i) i) (tinyState 1) = .ok T := by
  have ops : servedWorker.ops = FloatOps.real 0 := rfl
  obtain ⟨T, ran, -⟩ := tiny_batch (w := servedWorker.part ((tinyState (2 * 1)).sizes 1) i) (twoSamples.part 1 i) ops rfl Nat.one_pos
  exact ⟨T, ran⟩

/-- Two workers with a sample each. -/
theorem gradient_parts_tiny : ∃ (S' : NetState ℝ) (P' : ℕ → NetState ℝ),
    servedWorker.trainOneBatch (tinyNet twoSamples 0) (tinyState (2 * 1)) = .ok S' ∧
    (∀ i < 2, (servedWorker.part ((tinyState (2 * 1)).sizes 1) i).trainOneBatch (tinyNet (twoSamples.part 1 i) i) (tinyState 1) =
      .ok (P' i)) ∧
    ∀ o, ∀ k < ((tinyState (2 * 1)).param o).count, (2 : ℕ) * servedWorker.gradientAt (tinyNet twoSamples 0) S' o k =
      ∑ i ∈ Finset.range 2, (servedWorker.part ((tinyState (2 * 1)).sizes 1) i).gradientAt (tinyNet (twoSamples.part 1 i) i)
        (P' i) o k := by
  have ops : servedWorker.ops = FloatOps.real 0 := rfl
  obtain ⟨S', run, smooth⟩ := tiny_batch (w := servedWorker) twoSamples ops rfl (by decide)
  choose P' runs using tiny_part_runs
  refine ⟨S', P', run, fun i _ => runs i, fun o k lt => ?_⟩
  have real : ∀ i, (servedWorker.env i).math = FloatMath.real := fun _ => rfl
  have wired : Wired (servedWorker.layers (tinyNet twoSamples 0)) (tinyState (2 * 1)).grad := tiny_wired 0
  have batched : BatchedNet (servedWorker.layers (tinyNet twoSamples 0)) (tinyState (2 * 1)) (2 * 1) := tiny_batched twoSamples
  have mean := gradient_parts real ops (fun _ _ => rfl) wired batched run smooth
    (fun i _ => by rw [tiny_layers_part, tinyState_part]; exact runs i) lt
  simp only [tiny_layers_part] at mean
  exact mean

end BPWorker
end Singa
