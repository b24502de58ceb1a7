import Singa.Trainer.BPWorker

/-!
# How the layers move

When the params move, so do the data of all layers and the loss, one layer after
the other. What the gradients of a layer have to do with the velocities of its
source and its params is an equation between the states before and after its
`ComputeGradient`.
-/

namespace Singa
set_option autoImplicit false

open Mshadow SoftmaxLossLayer

namespace BPWorker

variable {w : BPWorker ℝ} {fltMin t : ℝ}

/-- The scores of a batch, as `SoftmaxLossLayer` wants them: labels that are labels, and probabilities that can be
told from zero. -/
structure Scored (fltMin : ℝ) (layer : SoftmaxLossLayer ℝ) (data src labels : LayerBlob ℝ) (gsrc : Option (LayerBlob ℝ)) : Prop where
  whole : data.count = layer.batchsize * layer.dim
  top : layer.topk ≤ layer.dim
  batch : labels.count = layer.batchsize
  labelled : ∀ label ∈ labels.values, 0 ≤ (FloatOps.real fltMin).toInt label ∧ (FloatOps.real fltMin).toInt label < layer.dim
  checked : ∀ label ∈ labels.values, (FloatOps.real fltMin).toInt label < 278
  same : src.count = data.count
  likely : ∀ n < layer.batchsize, fltMin < data.dptr (n * layer.dim + ((FloatOps.real fltMin).toInt (labels.dptr n)).toNat)
  grad : ∀ g ∈ gsrc, g.shape = data.shape

/-- Where a layer has a derivative, in a state that `Forward` has left. The labels come from a layer of `Still`. -/
def Smooth (w : BPWorker ℝ) (fltMin : ℝ) (Still : ℕ → Prop) (S : NetState ℝ) (l : WorkerLayer ℝ) : Prop :=
  match l.kind, l.srclayers with
  | .neuron layer, src :: _ => layer.Smooth (w.env l.id).fltMax (S.data src)
  | .softmaxLoss layer, [src, label] =>
    Scored fltMin layer (S.data l.id) (S.data src) (S.data label) (S.grad src) ∧ Still label
  | _, _ => True

/-- A state agrees with another one on what a layer reads. -/
structure Agrees (w : BPWorker ℝ) (S₁ S : NetState ℝ) (l : WorkerLayer ℝ) : Prop where
  data : S₁.data l.id = S.data l.id
  own : S₁.own l.id = S.own l.id
  sources : ∀ i ∈ l.sources, S₁.data i = S.data i
  params : ∀ p ∈ l.params, S₁.param (w.owner p) = S.param (w.owner p)
  grad : ∀ i, l.target = some i → S₁.grad i = S.grad i

/-- The pairings of the gradients of the params of a layer with the velocities of their owners. -/
def paramFlow (w : BPWorker ℝ) (S : NetState ℝ) (dθ : ℕ → ℕ → ℝ) (l : WorkerLayer ℝ) : ℝ :=
  NeuronLayer.pairedParams (l.params.map S.paramGrad) (l.params.map fun p => dθ (w.owner p))

/-- The pairing of the gradient that a layer writes with the velocity of its source. -/
def targetFlow (S : NetState ℝ) (dy : ℕ → ℕ → ℝ) (l : WorkerLayer ℝ) : ℝ :=
  match l.target with
  | none => 0
  | some i => paired (S.grad i) (dy i)

/-- **The balance of a layer**: what comes in with its gradient, or with the loss, goes out with the gradients that it
writes. -/
def Balanced (w : BPWorker ℝ) (S : NetState ℝ) (dθ dy : ℕ → ℕ → ℝ) (dloss : ℕ → ℝ) (l : WorkerLayer ℝ) : Prop :=
  ∀ S₁ S₂, Agrees w S₁ S l → (l.isNeuron = false → S₁.grad l.id = none ∧ l.params = []) → l.params.Nodup →
    (∀ i, l.target = some i → S₁.grad i = none → dy i = fun _ => 0) → w.computeGradient S₁ l = .ok S₂ →
    paired (S₁.grad l.id) (dy l.id) + dloss l.id = targetFlow S₂ dy l + paramFlow w S₂ dθ l

theorem assign_of_notMem {α : Type} {grads : ℕ → LayerBlob α} {params : List ℕ} {p : ℕ} (fresh : p ∉ params)
    {gparams : List (LayerBlob α)} :
    (params.zip gparams).foldl (fun grads pg => Function.update grads pg.1 pg.2) grads p = grads p := by
  induction params generalizing grads gparams with
  | nil => rfl
  | cons q params ih =>
    cases gparams with
    | nil => rfl
    | cons g gparams =>
      obtain ⟨other, fresh⟩ := not_or.mp (List.mem_cons.not.mp fresh)
      rw [List.zip_cons_cons, List.foldl_cons, ih fresh, Function.update_of_ne other]

theorem assign_map {α : Type} (grads : ℕ → LayerBlob α) {params : List ℕ} (distinct : params.Nodup) {gparams : List (LayerBlob α)}
    (same : gparams.length = params.length) : params.map (assign grads params gparams) = gparams := by
  unfold assign
  induction params generalizing grads gparams with
  | nil => exact (List.eq_nil_of_length_eq_zero same).symm
  | cons p params ih =>
    cases gparams with
    | nil => cases same
    | cons g gparams =>
      obtain ⟨fresh, distinct⟩ := List.nodup_cons.mp distinct
      rw [List.zip_cons_cons, List.foldl_cons, List.map_cons, ih _ distinct (Nat.succ.inj same)]
      refine congrArg (· :: gparams) ?_
      rw [assign_of_notMem fresh, Function.update_self]

/-- The loss that has been added to the metric. -/
def lossSum (S : NetState ℝ) : ℝ := (S.perf.map Prod.fst).sum

section Layer

variable {l : WorkerLayer ℝ} {F F' : ℝ → NetState ℝ} {S : NetState ℝ} {dθ dy : ℕ → ℕ → ℝ} {Still : ℕ → Prop} {d : ℝ}

/-- A family of states whose blobs move, and keep their shapes; those of `Still` are the same at all times. -/
structure Moving (w : BPWorker ℝ) (t : ℝ) (F : ℝ → NetState ℝ) (dθ dy : ℕ → ℕ → ℝ) (Still : ℕ → Prop) : Prop where
  param : ∀ o, BlobMoves t (fun s => (F s).param o) (dθ o)
  data : ∀ i, BlobMoves t (fun s => (F s).data i) (dy i)
  shape : ∀ i s, ((F s).data i).shape = ((F t).data i).shape
  still : ∀ i, Still i → ∀ s, (F s).data i = (F t).data i

/-- What the step of one layer gives: its velocity, that of the loss, and the balance. -/
structure Steps (w : BPWorker ℝ) (t : ℝ) (S : NetState ℝ) (F' : ℝ → NetState ℝ) (dθ dy : ℕ → ℕ → ℝ) (d : ℝ) (l : WorkerLayer ℝ)
    (dyl : ℕ → ℝ) (dl : ℝ) : Prop where
  moves : BlobMoves t (fun s => (F' s).data l.id) dyl
  rest : l.isParser = true → dyl = fun _ => 0
  shape : ∀ s, ((F' s).data l.id).shape = ((F' t).data l.id).shape
  loss : HasDerivAt (fun s => lossSum (F' s)) (d + dl) t
  balanced : ∀ dy' dloss, dy' l.id = dyl → (∀ i ∈ l.sources, dy' i = dy i) → dloss l.id = dl → Balanced w S dθ dy' dloss l

/-- A neuron layer: its gradients are the transpose of its derivative. -/
theorem steps_neuron (real : ∀ i, (w.env i).math = FloatMath.real) {layer : NeuronLayer ℝ} (kind : l.kind = .neuron layer)
    (moving : Moving w t F dθ dy Still) (own : ∀ s, (F s).data l.id = (F t).data l.id ∧ (F s).own l.id = (F t).own l.id)
    (loss : HasDerivAt (fun s => lossSum (F s)) d t) (run : ∀ s, w.computeFeature true (F s) l = .ok (F' s))
    (apart : l.id ∉ l.sources) (agrees : Agrees w S (F' t) l) (smooth : w.Smooth fltMin Still S l) :
    ∃ dyl dl, Steps w t S F' dθ dy d l dyl dl := by
  obtain ⟨id, partitionId, kind', srclayers, params⟩ := l
  obtain rfl : kind' = .neuron layer := kind
  cases srclayers with
  | nil => cases run t
  | cons src srclayers =>
    have ran : ∀ s, layer.computeFeature (w.env id) true (w.params (F s) ⟨id, partitionId, .neuron layer, src :: srclayers, params⟩)
        ((F t).own id) ((F s).data src) ((F t).data id) = .ok ((F' s).own id, (F' s).data id) ∧ (F' s).perf = (F s).perf := by
      intro s
      obtain ⟨⟨own', data'⟩, ran, last⟩ := Run.do_ok.mp (run s)
      rw [← Except.ok.inj last]
      dsimp only at ran own ⊢
      rw [(own s).1, (own s).2] at ran
      rw [Function.update_self, Function.update_self]
      exact ⟨ran, rfl⟩
    have lists : ∀ s, w.params (F s) ⟨id, partitionId, .neuron layer, src :: srclayers, params⟩ =
        (params.map fun p s => (F s).param (w.owner p)).map fun p => p s := by
      intro s
      rw [List.map_map]
      rfl
    -- the layer writes nothing that it reads
    obtain ⟨-, param, -, -, others⟩ := computeFeature_frame (run t)
    have other : src ≠ id := fun same => apart (same ▸ List.mem_cons_self)
    have source : S.data src = (F t).data src := (agrees.sources src List.mem_cons_self).trans (others src other).1
    have runs := fun s => lists s ▸ (ran s).1
    obtain ⟨dyl, moves, transposed⟩ := NeuronLayer.backprop (real id) layer runs
      (List.forall₂_map_left_iff.mpr (List.forall₂_map_right_iff.mpr (List.forall₂_same.mpr fun p _ => moving.param (w.owner p))))
      (moving.data src) (source ▸ smooth)
    refine ⟨dyl, 0, moves, fun parser => absurd parser (by simp [WorkerLayer.isParser]), fun s => ?_, ?_, ?_⟩
    · exact (NeuronLayer.computeFeature_shape (ran s).1).trans (NeuronLayer.computeFeature_shape (ran t).1).symm
    · have same : (fun s => lossSum (F' s)) = fun s => lossSum (F s) := funext fun s => congrArg (fun p => (List.map Prod.fst p).sum) (ran s).2
      rw [add_zero, same]
      exact loss
    intro dy' dloss here there zero S₁ S₂ agrees₁ _ distinct null back
    obtain ⟨g, grad, back⟩ := Run.do_ok.mp back
    obtain ⟨⟨gparams', gsrc'⟩, back, last⟩ := Run.do_ok.mp back
    have sameParams : w.params S₁ ⟨id, partitionId, .neuron layer, src :: srclayers, params⟩ =
        (params.map fun p s => (F s).param (w.owner p)).map fun p => p t := by
      rw [← lists t]
      refine List.map_congr_left fun p mem => ?_
      rw [agrees₁.params p mem, agrees.params p mem, param]
    dsimp only at back grad
    rw [sameParams, agrees₁.own, agrees.own, agrees₁.sources src List.mem_cons_self, source, agrees₁.data, agrees.data] at back
    have flow := transposed g _ gparams' _ gsrc' back fun none => (there src List.mem_cons_self).symm.trans (null src rfl none)
    rw [← Except.ok.inj last]
    unfold paramFlow targetFlow
    have length := (NeuronLayer.computeGradient_ok back).1
    rw [List.length_map, List.length_map] at length
    dsimp only [WorkerLayer.target, WorkerLayer.sources, List.head?] at here zero ⊢
    rw [assign_map _ distinct length, Function.update_self, deref_ok.mp grad, here, zero, add_zero, there src List.mem_cons_self]
    exact flow

/-- A parser layer stands still. -/
theorem steps_records {records : LayerBlob ℝ} (kind : l.kind = .parser records) (loss : HasDerivAt (fun s => lossSum (F s)) d t)
    (run : ∀ s, w.computeFeature true (F s) l = .ok (F' s)) :
    ∃ dyl dl, Steps w t S F' dθ dy d l dyl dl := by
  obtain ⟨id, partitionId, kind', srclayers, params⟩ := l
  obtain rfl : kind' = .parser records := kind
  have ran : ∀ s, (F' s).data id = records ∧ (F' s).perf = (F s).perf := by
    intro s
    rw [← Except.ok.inj (run s)]
    exact ⟨Function.update_self _ _ _, rfl⟩
  refine ⟨fun _ => 0, 0, fun k => ?_, fun _ => rfl, fun s => ?_, ?_, fun dy' dloss here _ zero S₁ S₂ agrees₁ null _ _ back => ?_⟩
  · have same : (fun s => ((F' s).data id).dptr k) = fun _ => records.dptr k := funext fun s => by rw [(ran s).1]
    show HasDerivAt (fun s => ((F' s).data id).dptr k) 0 t
    rw [same]
    exact hasDerivAt_const t _
  · exact congrArg LayerBlob.shape ((ran s).1.trans (ran t).1.symm)
  · have same : (fun s => lossSum (F' s)) = fun s => lossSum (F s) :=
      funext fun s => congrArg (fun p => (List.map Prod.fst p).sum) (ran s).2
    rw [add_zero, same]
    exact loss
  · obtain ⟨none, empty⟩ := null rfl
    obtain rfl : S₁ = S₂ := Except.ok.inj back
    dsimp only at none empty zero
    subst empty
    rw [none, zero]
    simp [paired, targetFlow, paramFlow, WorkerLayer.target, WorkerLayer.sources, NeuronLayer.pairedParams]

/-- A loss layer: its gradient is the derivative of the loss. -/
theorem steps_loss (real : w.ops = FloatOps.real fltMin) {layer : SoftmaxLossLayer ℝ} (kind : l.kind = .softmaxLoss layer)
    (moving : Moving w t F dθ dy Still) (own : ∀ s, (F s).data l.id = (F t).data l.id)
    (loss : HasDerivAt (fun s => lossSum (F s)) d t) (run : ∀ s, w.computeFeature true (F s) l = .ok (F' s))
    (apart : l.id ∉ l.sources) (agrees : Agrees w S (F' t) l) (smooth : w.Smooth fltMin Still S l) :
    ∃ dyl dl, Steps w t S F' dθ dy d l dyl dl := by
  obtain ⟨id, partitionId, kind', srclayers, params⟩ := l
  obtain rfl : kind' = .softmaxLoss layer := kind
  obtain ⟨src, label, rfl⟩ : ∃ src label, srclayers = [src, label] := by
    have run := run t
    unfold computeFeature at run
    rcases srclayers with _ | ⟨src, _ | ⟨label, _ | _⟩⟩
    case cons.cons.nil => exact ⟨src, label, rfl⟩
    all_goals cases run
  obtain ⟨scored, stillLabel⟩ := smooth
  have each : ∀ s, ∃ layer' lossOf accuracy, (({ layer with data := (F t).data id } : SoftmaxLossLayer ℝ).computeFeature
      (FloatOps.real fltMin) ((F s).data src) ((F t).data label)).result = .ok (layer', lossOf, accuracy) ∧
        (F' s).data id = layer'.data ∧ (F' s).perf = (F s).perf ++ [(lossOf, accuracy)] := by
    intro s
    obtain ⟨⟨layer', lossOf, accuracy⟩, ran, last⟩ := Run.do_ok.mp (run s)
    dsimp only at ran own
    rw [real, own s, moving.still label stillLabel s] at ran
    refine ⟨layer', lossOf, accuracy, ran, ?_, ?_⟩
    all_goals rw [← Except.ok.inj last]
    exact Function.update_self _ _ _
  choose layer' lossOf accuracy ran feature perf using each
  -- the layer writes nothing that it reads
  obtain ⟨-, -, -, -, others⟩ := computeFeature_frame (run t)
  have source : ∀ i ∈ [src, label], S.data i = (F t).data i := fun i mem =>
    (agrees.sources i mem).trans (others i fun same => apart (same ▸ mem)).1
  have left : S.data id = (layer' t).data := agrees.data.trans (feature t)
  have made := fun s => predict_layer (computeFeature_returned (ran s)).1
  have shapes : ∀ s, (layer' s).data.shape = ((F t).data id).shape := by
    intro s
    obtain ⟨data, shape, here⟩ := made s
    rw [here]
    exact shape
  have count : ∀ s, (layer' s).data.count = layer.batchsize * layer.dim := fun s =>
    (congrArg List.prod ((shapes s).trans (shapes t).symm)).trans (left ▸ scored.whole)
  have whole : ((F t).data id).count = layer.batchsize * layer.dim := (congrArg List.prod (shapes t)).symm.trans (count t)
  have same : ∀ s, ((F s).data src).count = ((F t).data id).count := by
    intro s
    have := scored.same
    rw [source src List.mem_cons_self, left] at this
    exact (congrArg List.prod (moving.shape src s)).trans (this.trans (congrArg List.prod (shapes t)))
  have labels : S.data label = (F t).data label := source label (List.mem_cons_of_mem _ List.mem_cons_self)
  obtain ⟨dl, derivative, transposed⟩ := SoftmaxLossLayer.backprop whole (labels ▸ scored.batch) (labels ▸ scored.labelled) ran same
    (moving.data src) (labels ▸ left ▸ scored.likely)
  -- the probabilities move, too
  have shares : ∀ s, ∀ n < layer.batchsize, ∀ j < layer.dim, (layer' s).data.tensor layer.dim n j =
      Velocity.share (Finset.range layer.dim) (fun k => ((F s).data src).dptr (n * layer.dim + k)) j :=
    fun s n sample j column => predict_share whole (same s) (computeFeature_returned (ran s)).1 sample column
  obtain ⟨dyl, moves, -⟩ := BlobMoves.of_tensor count shares fun n _ j column =>
    Velocity.Moves.share ((moving.data src).at fun k => n * layer.dim + k) (Finset.mem_range.mpr column)
  refine ⟨dyl, dl, fun k => ?_, fun parser => absurd parser (by simp [WorkerLayer.isParser]), fun s => ?_, ?_, ?_⟩
  · have same : (fun s => ((F' s).data id).dptr k) = fun s => (layer' s).data.dptr k := funext fun s => by rw [feature]
    show HasDerivAt (fun s => ((F' s).data id).dptr k) _ t
    rw [same]
    exact moves k
  · dsimp only
    rw [feature, feature, shapes, shapes]
  · have same : (fun s => lossSum (F' s)) = fun s => lossSum (F s) + lossOf s := by
      funext s
      unfold lossSum
      rw [perf]
      simp
    rw [same]
    exact loss.add derivative
  intro dy' dloss _ there here S₁ S₂ agrees₁ null _ _ back
  obtain ⟨none, empty⟩ := null rfl
  obtain ⟨g, grad, rest⟩ := Run.do_ok.mp back
  obtain ⟨g', wrote, last⟩ := Run.do_ok.mp rest
  dsimp only at none empty here wrote grad
  subst empty
  have known : ({ layer with data := S₁.data id } : SoftmaxLossLayer ℝ) = layer' t := by
    obtain ⟨data, -, made⟩ := made t
    rw [agrees₁.data, left, made]
  have fits : g.shape = ((F t).data id).shape := by
    have there : S.grad src = some g := by rw [← agrees₁.grad src rfl, deref_ok.mp grad]
    rw [← shapes t, ← left]
    exact scored.grad g there
  rw [known, real, agrees₁.sources label (List.mem_cons_of_mem _ List.mem_cons_self), labels] at wrote
  have flow := transposed g g' fits wrote
  rw [← Except.ok.inj last, none, here, flow]
  simp [paired, targetFlow, paramFlow, WorkerLayer.target, WorkerLayer.sources, NeuronLayer.pairedParams,
    there src List.mem_cons_self]

end Layer

theorem Balanced.congr {S : NetState ℝ} {dθ dy : ℕ → ℕ → ℝ} {dloss dloss' : ℕ → ℝ} {l : WorkerLayer ℝ}
    (balanced : Balanced w S dθ dy dloss l) (same : dloss' l.id = dloss l.id) : Balanced w S dθ dy dloss' l := by
  intro S₁ S₂ agrees null distinct still back
  rw [same]
  exact balanced S₁ S₂ agrees null distinct still back

theorem data_records {S S' : NetState ℝ} {l : WorkerLayer ℝ} (parser : l.isParser = true) (run : w.computeFeature true S l = .ok S') :
    ∃ records, l.kind = .parser records ∧ S'.data l.id = records := by
  obtain ⟨id, partitionId, kind, srclayers, params⟩ := l
  cases kind with
  | parser records =>
    rw [← Except.ok.inj run]
    exact ⟨records, rfl, Function.update_self _ _ _⟩
  | neuron layer => cases parser
  | softmaxLoss layer => cases parser

theorem notMem_ids {l : WorkerLayer ℝ} {net : List (WorkerLayer ℝ)} (before : ∀ a ∈ net, l.id ≠ a.id) :
    l.id ∉ net.map WorkerLayer.id := fun mem => by
  obtain ⟨a, listed, same⟩ := List.mem_map.mp mem
  exact before a listed same.symm

/-- No later layer writes what a layer reads. -/
theorem sources_notMem {l : WorkerLayer ℝ} {net : List (WorkerLayer ℝ)} (before : ∀ a ∈ net, l.id ≠ a.id ∧ a.id ∉ l.sources)
    (i : ℕ) (read : i ∈ l.sources) : i ∉ net.map WorkerLayer.id := fun mem => by
  obtain ⟨a, listed, rfl⟩ := List.mem_map.mp mem
  exact (before a listed).2 read

/-- What a layer has read and written stays to the end. -/
theorem agrees_after {train : Bool} {A S : NetState ℝ} {l : WorkerLayer ℝ} {net : List (WorkerLayer ℝ)}
    (before : ∀ a ∈ net, l.id ≠ a.id ∧ a.id ∉ l.sources) (rest : net.foldlM (w.computeFeature train) A = .ok S) :
    Agrees w S A l := by
  obtain ⟨grad, param, -, -, kept⟩ := forward_frame rest
  have here := notMem_ids fun a mem => (before a mem).1
  exact ⟨(kept l.id here).1, (kept l.id here).2, fun i mem => (kept i (sources_notMem before i mem)).1,
    fun p _ => congrFun param _, fun i _ => congrFun grad i⟩

/-- **`Forward` moves all layers**: when the params move, so do the data of the layers, and the loss by the sum of what
the loss layers give. Every layer is balanced. -/
theorem forward_moves (real : ∀ i, (w.env i).math = FloatMath.real) (realOps : w.ops = FloatOps.real fltMin)
    {Still : ℕ → Prop} {dθ : ℕ → ℕ → ℝ} {S : ℝ → NetState ℝ} (net : List (WorkerLayer ℝ)) :
    ∀ {F : ℝ → NetState ℝ} {dy : ℕ → ℕ → ℝ} {d : ℝ}, Moving w t F dθ dy Still →
      (∀ l ∈ net, ∀ s, (F s).data l.id = (F t).data l.id ∧ (F s).own l.id = (F t).own l.id) →
      HasDerivAt (fun s => lossSum (F s)) d t → (∀ s, net.foldlM (w.computeFeature true) (F s) = .ok (S s)) →
      (net.Pairwise fun a b => a.id ≠ b.id ∧ b.id ∉ a.sources) → (∀ l ∈ net, l.id ∉ l.sources) →
      (∀ l ∈ net, Still l.id → l.isParser = true) → (∀ l ∈ net, w.Smooth fltMin Still (S t) l) →
      ∃ (dy' : ℕ → ℕ → ℝ) (dloss : ℕ → ℝ), (∀ i ∉ net.map WorkerLayer.id, dy' i = dy i) ∧
        (∀ l ∈ net, l.isParser = true → dy' l.id = fun _ => 0) ∧ (∀ l ∈ net, Balanced w (S t) dθ dy' dloss l) ∧
        HasDerivAt (fun s => lossSum (S s)) (d + (net.map fun l => dloss l.id).sum) t := by
  induction net with
  | nil =>
    intro F dy d _ _ loss run _ _ _ _
    have same : S = F := funext fun s => (Except.ok.inj (run s)).symm
    refine ⟨dy, fun _ => 0, fun _ _ => rfl, by simp, by simp, ?_⟩
    rw [same, List.map_nil, List.sum_nil, add_zero]
    exact loss
  | cons l net ih =>
    intro F dy d moving fresh loss run order apart stays smooth
    have split : ∀ s, ∃ next, w.computeFeature true (F s) l = .ok next ∧ net.foldlM (w.computeFeature true) next = .ok (S s) :=
      fun s => Run.do_ok.mp ((List.foldlM_cons ..).symm.trans (run s))
    choose F' first rest using split
    obtain ⟨before, order⟩ := List.pairwise_cons.mp order
    have here := notMem_ids fun l' mem => (before l' mem).1
    have sources := fun i mem => sources_notMem before i mem
    have agrees := agrees_after before (rest t)
    have step : ∃ dyl dl, Steps w t (S t) F' dθ dy d l dyl dl := by
      have smooth := smooth l List.mem_cons_self
      have apart := apart l List.mem_cons_self
      have own := fresh l List.mem_cons_self
      cases kind : l.kind with
      | parser records => exact steps_records kind loss first
      | neuron layer => exact steps_neuron real kind moving own loss first apart agrees smooth
      | softmaxLoss layer => exact steps_loss realOps kind moving (fun s => (own s).1) loss first apart agrees smooth
    obtain ⟨dyl, dl, moves, parser, shape, loss', balance⟩ := step
    have frame := fun s => computeFeature_frame (first s)
    have data : ∀ i ≠ l.id, ∀ s, (F' s).data i = (F s).data i := fun i other s => ((frame s).2.2.2.2 i other).1
    have moving' : Moving w t F' dθ (Function.update dy l.id dyl) Still := by
      refine ⟨fun o => ?_, fun i => ?_, fun i s => ?_, fun i still s => ?_⟩
      · simp only [fun s => (frame s).2.1]
        exact moving.param o
      · by_cases same : i = l.id
        · subst same
          rw [Function.update_self]
          exact moves
        · rw [Function.update_of_ne same]
          simp only [data i same]
          exact moving.data i
      · by_cases same : i = l.id
        · subst same
          exact shape s
        · rw [data i same, data i same]
          exact moving.shape i s
      · by_cases same : i = l.id
        · subst same
          obtain ⟨records, kind, filled⟩ := data_records (stays l List.mem_cons_self still) (first s)
          obtain ⟨records', kind', filled'⟩ := data_records (stays l List.mem_cons_self still) (first t)
          rw [kind] at kind'
          cases kind'
          rw [filled, filled']
        · rw [data i same, data i same]
          exact moving.still i still s
    have fresh' : ∀ a ∈ net, ∀ s, (F' s).data a.id = (F' t).data a.id ∧ (F' s).own a.id = (F' t).own a.id := by
      intro a mem s
      have other := (before a mem).1.symm
      have old := fresh a (List.mem_cons_of_mem l mem) s
      rw [data a.id other, data a.id other, ((frame s).2.2.2.2 a.id other).2, ((frame t).2.2.2.2 a.id other).2]
      exact old
    obtain ⟨dy', dloss, outside, parsers, balanced, total⟩ := ih moving' fresh' loss' rest order
      (fun a mem => apart a (List.mem_cons_of_mem l mem)) (fun a mem => stays a (List.mem_cons_of_mem l mem))
      fun a mem => smooth a (List.mem_cons_of_mem l mem)
    have own : dy' l.id = dyl := (outside l.id here).trans (Function.update_self _ _ _)
    have others : ∀ a ∈ net, Function.update dloss l.id dl a.id = dloss a.id :=
      fun a mem => Function.update_of_ne (before a mem).1.symm _ _
    refine ⟨dy', Function.update dloss l.id dl, fun i out => ?_, fun a mem is => ?_, fun a mem => ?_, ?_⟩
    · obtain ⟨other, out⟩ := not_or.mp (List.mem_cons.not.mp out)
      rw [outside i out, Function.update_of_ne other]
    · rcases List.mem_cons.mp mem with rfl | mem
      · rw [own, parser is]
      · exact parsers a mem is
    · rcases List.mem_cons.mp mem with rfl | mem
      · refine balance dy' _ own (fun i read => ?_) (Function.update_self _ _ _)
        rw [outside i (sources i read), Function.update_of_ne]
        rintro rfl
        exact apart a List.mem_cons_self read
      · exact (balanced a mem).congr (others a mem)
    · rw [List.map_cons, List.sum_cons, Function.update_self, List.map_congr_left others, ← add_assoc]
      exact total

/-! ## Where `Forward` returns -/

/-- Two states have blobs of the same shapes; those of `Still` are the same. -/
structure Alike (Still : ℕ → Prop) (A A' : NetState ℝ) : Prop where
  data : ∀ i, (A.data i).shape = (A'.data i).shape
  own : ∀ i, (A.own i).shape = (A'.own i).shape
  param : ∀ o, (A.param o).shape = (A'.param o).shape
  still : ∀ i, Still i → A.data i = A'.data i

/-- One layer: it returns in both states, and leaves states that are alike. -/
theorem computeFeature_alike (realOps : w.ops = FloatOps.real fltMin) {Still : ℕ → Prop} {A A' B S : NetState ℝ}
    {l : WorkerLayer ℝ} (alike : Alike Still A A') (run : w.computeFeature true A l = .ok B)
    (apart : l.id ∉ l.sources) (stays : Still l.id → l.isParser = true) (agrees : Agrees w S B l)
    (smooth : w.Smooth fltMin Still S l) : ∃ B', w.computeFeature true A' l = .ok B' ∧ Alike Still B B' := by
  obtain ⟨-, param, -, -, others⟩ := computeFeature_frame run
  suffices step : ∃ B', w.computeFeature true A' l = .ok B' ∧ (B.data l.id).shape = (B'.data l.id).shape ∧
      (B.own l.id).shape = (B'.own l.id).shape ∧ (Still l.id → B.data l.id = B'.data l.id) by
    obtain ⟨B', run', data, own, still⟩ := step
    obtain ⟨-, param', -, -, others'⟩ := computeFeature_frame run'
    refine ⟨B', run', fun i => ?_, fun i => ?_, fun o => ?_, fun i there => ?_⟩
    · by_cases same : i = l.id
      · exact same ▸ data
      · rw [(others i same).1, (others' i same).1]
        exact alike.data i
    · by_cases same : i = l.id
      · exact same ▸ own
      · rw [(others i same).2, (others' i same).2]
        exact alike.own i
    · rw [param, param']
      exact alike.param o
    · by_cases same : i = l.id
      · subst same
        exact still there
      · rw [(others i same).1, (others' i same).1]
        exact alike.still i there
  obtain ⟨id, partitionId, kind, srclayers, params⟩ := l
  cases kind with
  | parser records =>
    refine ⟨_, rfl, ?_⟩
    rw [← Except.ok.inj run]
    dsimp only
    rw [Function.update_self, Function.update_self]
    exact ⟨rfl, alike.own id, fun _ => rfl⟩
  | neuron layer =>
    cases srclayers with
    | nil => cases run
    | cons src srclayers =>
      obtain ⟨⟨own, data⟩, made, last⟩ := Run.do_ok.mp run
      have params' : List.Forall₂ (fun b b' : LayerBlob ℝ => b.shape = b'.shape)
          (w.params A ⟨id, partitionId, .neuron layer, src :: srclayers, params⟩)
          (w.params A' ⟨id, partitionId, .neuron layer, src :: srclayers, params⟩) :=
        List.forall₂_map_left_iff.mpr (List.forall₂_map_right_iff.mpr (List.forall₂_same.mpr fun p _ => alike.param (w.owner p)))
      obtain ⟨sameOwn, own', data', made'⟩ :=
        NeuronLayer.computeFeature_alike params' (alike.own id) (alike.data src) (alike.data id) made
      have sameOwn' := (NeuronLayer.computeFeature_alike (List.forall₂_same.mpr fun _ _ => rfl) rfl rfl rfl made').1
      refine ⟨_, Run.do_ok.mpr ⟨(own', data'), made', rfl⟩, ?_⟩
      rw [← Except.ok.inj last]
      dsimp only
      rw [Function.update_self, Function.update_self, Function.update_self, Function.update_self]
      refine ⟨?_, ?_, fun there => absurd (stays there) (by simp [WorkerLayer.isParser])⟩
      · rw [NeuronLayer.computeFeature_shape made, NeuronLayer.computeFeature_shape made']
        exact alike.data id
      · rw [sameOwn, sameOwn']
        exact alike.own id
  | softmaxLoss layer =>
    rcases srclayers with _ | ⟨src, _ | ⟨label, _ | _⟩⟩
    case cons.cons.nil =>
      obtain ⟨⟨layer', loss, accuracy⟩, made, last⟩ := Run.do_ok.mp run
      obtain ⟨scored, stillLabel⟩ := smooth
      have source : ∀ i ∈ [src, label], S.data i = A.data i := fun i mem =>
        (agrees.sources i mem).trans (others i fun same => apart (same ▸ mem)).1
      obtain ⟨data, shape, here⟩ := predict_layer (computeFeature_returned made).1
      have left : S.data id = data := by
        rw [agrees.data, ← Except.ok.inj last, here]
        exact Function.update_self _ _ _
      have size : (A'.data id).count = (S.data id).count := by
        rw [left]
        exact congrArg List.prod ((alike.data id).symm.trans shape.symm)
      have labels : S.data label = A'.data label :=
        (source label (List.mem_cons_of_mem _ List.mem_cons_self)).trans (alike.still label stillLabel)
      have same : (A'.data src).count = (A'.data id).count := by
        rw [size, ← scored.same, source src List.mem_cons_self]
        exact congrArg List.prod (alike.data src).symm
      obtain ⟨⟨layer'', loss', accuracy'⟩, made'⟩ := computeFeature_total (FloatOps.real fltMin)
        (show ({ layer with data := A'.data id } : SoftmaxLossLayer ℝ).data.count = layer.batchsize * layer.dim from
          size.trans scored.whole) same scored.top (labels ▸ scored.batch)
        (fun x mem => ⟨(scored.labelled x (labels ▸ mem)).1, scored.checked x (labels ▸ mem)⟩)
        fun x mem => (scored.labelled x (labels ▸ mem)).2
      obtain ⟨data', shape', here'⟩ := predict_layer (computeFeature_returned made').1
      refine ⟨_, Run.do_ok.mpr ⟨_, by rw [realOps]; exact made', rfl⟩, ?_⟩
      rw [← Except.ok.inj last]
      dsimp only
      rw [Function.update_self, Function.update_self, here, here']
      exact ⟨shape.trans ((alike.data id).trans shape'.symm), alike.own id,
        fun there => absurd (stays there) (by simp [WorkerLayer.isParser])⟩
    all_goals cases run

/-- **Where `Forward` returns is a matter of shapes and labels.** The states that it leaves are alike. -/
theorem forward_alike (realOps : w.ops = FloatOps.real fltMin) {Still : ℕ → Prop} {S : NetState ℝ} (net : List (WorkerLayer ℝ)) :
    ∀ {A A' : NetState ℝ}, Alike Still A A' → net.foldlM (w.computeFeature true) A = .ok S →
      (net.Pairwise fun a b => a.id ≠ b.id ∧ b.id ∉ a.sources) → (∀ l ∈ net, l.id ∉ l.sources) →
      (∀ l ∈ net, Still l.id → l.isParser = true) → (∀ l ∈ net, w.Smooth fltMin Still S l) →
      ∃ S', net.foldlM (w.computeFeature true) A' = .ok S' ∧ Alike Still S S' := by
  induction net with
  | nil => exact fun alike run _ _ _ _ => ⟨_, rfl, Except.ok.inj run ▸ alike⟩
  | cons l net ih =>
    intro A A' alike run order apart stays smooth
    rw [List.foldlM_cons] at run
    obtain ⟨B, first, rest⟩ := Run.do_ok.mp run
    obtain ⟨before, order⟩ := List.pairwise_cons.mp order
    have agrees := agrees_after before rest
    obtain ⟨B', first', alike'⟩ := computeFeature_alike realOps alike first (apart l List.mem_cons_self)
      (stays l List.mem_cons_self) agrees (smooth l List.mem_cons_self)
    obtain ⟨S', rest', alike''⟩ := ih alike' rest order (fun a mem => apart a (List.mem_cons_of_mem l mem))
      (fun a mem => stays a (List.mem_cons_of_mem l mem)) fun a mem => smooth a (List.mem_cons_of_mem l mem)
    exact ⟨S', Run.foldlM_cons_ok first' rest', alike''⟩

end BPWorker
end Singa
