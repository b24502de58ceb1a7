import Singa.Neuralnet.RBM
import Singa.Trainer.BackProp

/-!
# `CDWorker`

Contrastive divergence: the positive phase computes what the hidden units make of
the data, the negative phase samples the visible and the hidden units in turn, and
the gradients are the differences between the two. The net has parser layers and
the two layers of an RBM.
-/

namespace Singa
set_option autoImplicit false

open Mshadow

variable {α : Type}

/-- What a layer of the net is. -/
inductive CDKind (α : Type) where
  | parser (records : LayerBlob α)
  | rbmVis (layer : RBMVisLayer)
  | rbmHid (layer : RBMHidLayer α)

/-- A layer of the net; `srclayers` and `params` are ids. -/
structure CDLayer (α : Type) where
  id : ℕ
  kind : CDKind α
  srclayers : List ℕ
  params : List ℕ

namespace CDLayer

/-- `is_vislayer()`. -/
def isVislayer (l : CDLayer α) : Bool :=
  match l.kind with
  | .rbmVis _ => true
  | _ => false

/-- `is_hidlayer()`. -/
def isHidlayer (l : CDLayer α) : Bool :=
  match l.kind with
  | .rbmHid _ => true
  | _ => false

/-- `srclayers_[idx]`. -/
def source (l : CDLayer α) (idx : ℕ) : Run ℕ :=
  match l.srclayers[idx]? with
  | none => .error .range
  | some i => .ok i

end CDLayer

/-- The blobs of the net; the blob of its own of an RBM layer is its sample. -/
structure CDState (α : Type) extends NetState α where
  first : ℕ → Bool
  drawn : ℕ
  /-- The metric after `perf->Reset()` and `perf->Add("reconstruct_error", loss)`. -/
  reconstructError : Option α

/-- A worker with what the workers of `BPWorker` have, `pcd_k`, and the numbers that its generator returns. -/
structure CDWorker (α : Type) extends BPWorker α where
  pcdK : ℕ
  uniform : ℕ → α

namespace CDWorker

section Model

variable (w : CDWorker α) (net : List (CDLayer α))

/-- `mutable_data(from, phase)`: an RBM layer has its sample for the other phases than the positive one. -/
def mutableData (S : CDState α) (phase : Phase) (i : ℕ) : LayerBlob α :=
  if phase ≠ .kPositive ∧ net.any fun l => l.id = i ∧ (l.isVislayer ∨ l.isHidlayer) then S.own i else S.data i

/-- What an RBM layer reads and writes of the state. -/
def units (S : CDState α) (i : ℕ) : RBMUnits α := ⟨S.data i, S.own i, S.first i, S.drawn⟩

/-- The state after an RBM layer has written its blobs. -/
def setUnits (S : CDState α) (i : ℕ) (u : RBMUnits α) : CDState α :=
  { S with
    data := Function.update S.data i u.data
    own := Function.update S.own i u.sample
    first := Function.update S.first i u.first
    drawn := u.drawn }

variable [Field α] [LinearOrder α]

/-- `layer->ComputeFeature(phase, perf)`. -/
def computeFeature (phase : Phase) (S : CDState α) (l : CDLayer α) : Run (CDState α) :=
  match l.kind, l.params with
  | .parser records, _ => .ok { S with data := Function.update S.data l.id records }
  | .rbmVis layer, [weight, bias] => do
    let src ← l.source layer.dataIdx
    let hid ← l.source layer.hidIdx
    let u ← layer.computeFeature w.ops w.uniform phase (S.param (w.owner weight)) (S.param (w.owner bias))
      (mutableData net S .kPositive src) (mutableData net S .kNegative hid) (units S l.id)
    return setUnits S l.id u
  | .rbmHid layer, [weight, bias] => do
    let src ← l.source 0
    let u ← layer.computeFeature w.ops w.uniform phase (S.param (w.owner weight)) (S.param (w.owner bias))
      (mutableData net S phase src) (units S l.id)
    return setUnits S l.id u
  | _, _ => .error .range

/-- `layer->ComputeGradient(kTrain)`. -/
def computeGradient (S : CDState α) (l : CDLayer α) : Run (CDState α) :=
  match l.kind, l.params with
  | .parser _, _ => .ok S
  | .rbmVis layer, [weight, bias] => do
    let hid ← l.source layer.hidIdx
    let g ← layer.computeGradient (S.data l.id) (S.own l.id) (mutableData net S .kPositive hid) (mutableData net S .kNegative hid)
      (S.paramGrad weight) (S.paramGrad bias)
    return { S with paramGrad := Function.update (Function.update S.paramGrad weight g.1) bias g.2 }
  | .rbmHid layer, [_, bias] => do
    let g ← layer.computeGradient (S.data l.id) (S.own l.id) (S.paramGrad bias)
    return { S with paramGrad := Function.update S.paramGrad bias g }
  | _, _ => .error .range

/-- `layer->ComputeLoss(perf)` of a visible layer. -/
def computeLoss (S : CDState α) (l : CDLayer α) : Run (CDState α) :=
  match l.kind, l.params with
  | .rbmVis layer, [weight, bias] => do
    let src ← l.source layer.dataIdx
    let hid ← l.source layer.hidIdx
    let loss ← layer.computeLoss w.ops (S.param (w.owner weight)) (S.param (w.owner bias)) (mutableData net S .kPositive src)
      (mutableData net S .kPositive hid)
    return { S with reconstructError := some loss }
  | _, _ => .error .range

/-- `Worker::Update`. -/
def updateParam (S : CDState α) (p : ℕ) : CDState α := { S with toNetState := w.toBPWorker.updateParam S.toNetState p }

/-- `CDWorker::PositivePhase`. -/
def positivePhase (S : CDState α) : Run (CDState α) := net.foldlM (w.computeFeature net .kPositive) S

/-- `CDWorker::NegativePhase`: for negative phase, gibbs sampling only concerns RBM bottom and top layer. -/
def negativePhase (S : CDState α) : Run (CDState α) :=
  (List.range w.pcdK).foldlM (fun S _ =>
    (net.filter fun l => l.isVislayer || l.isHidlayer).foldlM (w.computeFeature net .kNegative) S) S

/-- `CDWorker::GradientPhase`. -/
def gradientPhase (S : CDState α) : Run (CDState α) :=
  net.foldlM (fun S l => do
    let S ← computeGradient net S l
    return l.params.foldl w.updateParam S) S

/-- `CDWorker::LossPhase`. -/
def lossPhase (S : CDState α) : Run (CDState α) := do
  let S ← (net.filter CDLayer.isHidlayer).foldlM (w.computeFeature net .kLoss) S
  (net.filter CDLayer.isVislayer).foldlM (w.computeLoss net) S

/-- `CDWorker::TrainOneBatch`. -/
def trainOneBatch (S : CDState α) : Run (CDState α) := do
  let S ← w.positivePhase net S
  let S ← w.negativePhase net S
  let S ← w.gradientPhase net S
  w.lossPhase net S

/-- `CDWorker::TestOneBatch`, on the test net. -/
def testOneBatch (S : CDState α) : Run (CDState α) := do
  let S ← w.positivePhase net S
  w.lossPhase net S

end Model

end CDWorker

/-! ## The two layers of an RBM -/

/-- The ids of the two layers, of the layer that they have their data from, and of their params. -/
structure RBM where
  data : ℕ
  vis : ℕ
  hid : ℕ
  weight : ℕ
  visBias : ℕ
  hidWeight : ℕ
  hidBias : ℕ
  batchsize : ℕ
  vdim : ℕ
  hdim : ℕ

namespace RBM

variable (r : RBM)

/-- The layers as `Setup` leaves them. -/
def visLayer : RBMVisLayer := ⟨r.hdim, r.vdim, r.batchsize, r.batchsize, 0, 1⟩

def hidLayer (α : Type) [One α] : RBMHidLayer α := ⟨r.hdim, r.vdim, r.batchsize, r.batchsize, 1⟩

def layers (α : Type) [One α] : List (CDLayer α) :=
  [⟨r.vis, .rbmVis r.visLayer, [r.data, r.hid], [r.weight, r.visBias]⟩,
    ⟨r.hid, .rbmHid (r.hidLayer α), [r.vis], [r.hidWeight, r.hidBias]⟩]

/-- The parser layers come first. -/
def net [One α] (parsers : List (CDLayer α)) : List (CDLayer α) := parsers ++ r.layers α

/-- The two layers share the weight, and nothing else. -/
structure Wired [One α] (w : CDWorker α) (parsers : List (CDLayer α)) : Prop where
  apart : r.vis ≠ r.hid
  parsers : ∀ l ∈ parsers, ∃ records, l.kind = .parser records ∧ l.id ≠ r.vis ∧ l.id ≠ r.hid ∧
    (l.id = r.data → records.count = r.batchsize * r.vdim)
  fed : r.data ≠ r.vis ∧ r.data ≠ r.hid
  params : r.weight ≠ r.visBias ∧ r.weight ≠ r.hidBias ∧ r.visBias ≠ r.hidBias
  shared : w.owner r.hidWeight = w.owner r.weight
  owners : w.owner r.weight ≠ w.owner r.visBias ∧ w.owner r.weight ≠ w.owner r.hidBias ∧ w.owner r.visBias ≠ w.owner r.hidBias
  some : 0 < r.batchsize

/-- The blobs have the sizes that the layers were set up for. -/
structure Sized (w : CDWorker α) (S : CDState α) : Prop where
  source : (S.data r.data).count = r.batchsize * r.vdim
  visData : (S.data r.vis).count = r.batchsize * r.vdim
  visSample : (S.own r.vis).count = r.batchsize * r.vdim
  hidData : (S.data r.hid).count = r.batchsize * r.hdim
  hidSample : (S.own r.hid).count = r.batchsize * r.hdim
  weight : (S.param (w.owner r.weight)).count = r.vdim * r.hdim
  visBias : (S.param (w.owner r.visBias)).count = r.vdim
  hidBias : (S.param (w.owner r.hidBias)).count = r.hdim
  weightGrad : (S.paramGrad r.weight).count = r.vdim * r.hdim
  visBiasGrad : (S.paramGrad r.visBias).count = r.vdim
  hidBiasGrad : (S.paramGrad r.hidBias).count = r.hdim

/-- What a step of the positive or the negative phase leaves as it was. -/
structure Keeps (w : CDWorker α) (S S' : CDState α) : Prop where
  sized : r.Sized w S'
  param : S'.param = S.param
  paramGrad : S'.paramGrad = S.paramGrad
  source : S'.data r.data = S.data r.data

variable {r} {w : CDWorker α} {S S' S'' : CDState α}

theorem Keeps.refl (sized : r.Sized w S) : r.Keeps w S S := ⟨sized, rfl, rfl, rfl⟩

theorem Keeps.trans (first : r.Keeps w S S') (second : r.Keeps w S' S'') : r.Keeps w S S'' :=
  ⟨second.sized, second.param.trans first.param, second.paramGrad.trans first.paramGrad, second.source.trans first.source⟩

section Layers

variable [One α] {parsers : List (CDLayer α)}

/-- The visible layer writes its own blobs only. -/
theorem Keeps.vis (wired : r.Wired w parsers) (sized : r.Sized w S) {u : RBMUnits α} (data : u.data.count = r.batchsize * r.vdim)
    (sample : u.sample.count = r.batchsize * r.vdim) : r.Keeps w S (CDWorker.setUnits S r.vis u) where
  sized := {
    sized with
    source := by
      show (Function.update S.data r.vis u.data r.data).count = _
      rw [Function.update_of_ne wired.fed.1]
      exact sized.source
    visData := by
      show (Function.update S.data r.vis u.data r.vis).count = _
      rwa [Function.update_self]
    visSample := by
      show (Function.update S.own r.vis u.sample r.vis).count = _
      rwa [Function.update_self]
    hidData := by
      show (Function.update S.data r.vis u.data r.hid).count = _
      rw [Function.update_of_ne wired.apart.symm]
      exact sized.hidData
    hidSample := by
      show (Function.update S.own r.vis u.sample r.hid).count = _
      rw [Function.update_of_ne wired.apart.symm]
      exact sized.hidSample }
  param := rfl
  paramGrad := rfl
  source := Function.update_of_ne wired.fed.1 _ _

/-- The hidden layer writes its own blobs only. -/
theorem Keeps.hid (wired : r.Wired w parsers) (sized : r.Sized w S) {u : RBMUnits α} (data : u.data.count = r.batchsize * r.hdim)
    (sample : u.sample.count = r.batchsize * r.hdim) : r.Keeps w S (CDWorker.setUnits S r.hid u) where
  sized := {
    sized with
    source := by
      show (Function.update S.data r.hid u.data r.data).count = _
      rw [Function.update_of_ne wired.fed.2]
      exact sized.source
    visData := by
      show (Function.update S.data r.hid u.data r.vis).count = _
      rw [Function.update_of_ne wired.apart]
      exact sized.visData
    visSample := by
      show (Function.update S.own r.hid u.sample r.vis).count = _
      rw [Function.update_of_ne wired.apart]
      exact sized.visSample
    hidData := by
      show (Function.update S.data r.hid u.data r.hid).count = _
      rwa [Function.update_self]
    hidSample := by
      show (Function.update S.own r.hid u.sample r.hid).count = _
      rwa [Function.update_self] }
  param := rfl
  paramGrad := rfl
  source := Function.update_of_ne wired.fed.2 _ _

omit [One α] in
@[simp] theorem mutableData_positive (net : List (CDLayer α)) (S : CDState α) (i : ℕ) :
    CDWorker.mutableData net S .kPositive i = S.data i := by
  simp [CDWorker.mutableData]

/-- In the negative phase the hidden layer reads what the visible layer has sampled. -/
@[simp] theorem mutableData_vis (S : CDState α) : CDWorker.mutableData (r.net parsers) S .kNegative r.vis = S.own r.vis := by
  simp [CDWorker.mutableData, RBM.net, RBM.layers, CDLayer.isVislayer]

/-- In the negative phase the visible layer reads what the hidden layer has sampled. -/
@[simp] theorem mutableData_hid (S : CDState α) : CDWorker.mutableData (r.net parsers) S .kNegative r.hid = S.own r.hid := by
  simp [CDWorker.mutableData, RBM.net, RBM.layers, CDLayer.isVislayer, CDLayer.isHidlayer]

end Layers

end RBM

namespace CDWorker

variable [Field α] [LinearOrder α] {r : RBM} {w : CDWorker α} {parsers : List (CDLayer α)} {S : CDState α}

/-- The layers as the net has them. -/
def vis (r : RBM) : CDLayer α := ⟨r.vis, .rbmVis r.visLayer, [r.data, r.hid], [r.weight, r.visBias]⟩

def hid (r : RBM) : CDLayer α := ⟨r.hid, .rbmHid (r.hidLayer α), [r.vis], [r.hidWeight, r.hidBias]⟩

/-! ## The positive phase -/

/-- The parsers put the records into the source of the visible layer. -/
theorem parsers_ok (wired : r.Wired w parsers) (sized : r.Sized w S) :
    ∃ S', parsers.foldlM (w.computeFeature (r.net parsers) .kPositive) S = .ok S' ∧
      r.Sized w S' ∧ S'.param = S.param ∧ S'.paramGrad = S.paramGrad := by
  refine Run.foldlM_prefix (fun _ S' => r.Sized w S' ∧ S'.param = S.param ∧ S'.paramGrad = S.paramGrad) ?_ ⟨sized, rfl, rfl⟩
  rintro done l rest S' whole ⟨sized, param, paramGrad⟩
  obtain ⟨records, kind, notVis, notHid, fits⟩ := wired.parsers l (by simp [whole])
  have run : w.computeFeature (r.net parsers) .kPositive S' l = .ok { S' with data := Function.update S'.data l.id records } := by
    unfold computeFeature
    rw [kind]
  refine ⟨_, run, { sized with source := ?_, visData := ?_, hidData := ?_ }, param, paramGrad⟩
  · show (Function.update S'.data l.id records r.data).count = _
    by_cases here : l.id = r.data
    · rw [here, Function.update_self]
      exact fits here
    · rw [Function.update_of_ne (Ne.symm here)]
      exact sized.source
  · show (Function.update S'.data l.id records r.vis).count = _
    rw [Function.update_of_ne notVis.symm]
    exact sized.visData
  · show (Function.update S'.data l.id records r.hid).count = _
    rw [Function.update_of_ne notHid.symm]
    exact sized.hidData

/-- The visible layer copies its source. -/
theorem vis_positive (wired : r.Wired w parsers) (sized : r.Sized w S) :
    ∃ S', w.computeFeature (r.net parsers) .kPositive S (vis r) = .ok S' ∧ r.Keeps w S S' ∧
      ∀ n < r.batchsize, ∀ i < r.vdim, (S'.data r.vis).tensor r.vdim n i = (S.data r.data).tensor r.vdim n i := by
  obtain ⟨u, run, data, sample, copied⟩ := r.visLayer.positive_ok w.ops w.uniform (u := units S r.vis) (S.param (w.owner r.weight))
    (S.param (w.owner r.visBias)) (mutableData (r.net parsers) S .kNegative r.hid) sized.source sized.visData
  refine ⟨setUnits S r.vis u, ?_, RBM.Keeps.vis wired sized (data.trans sized.visData) ?_, fun n row i column => ?_⟩
  · refine Run.do_ok.mpr ⟨r.data, rfl, Run.do_ok.mpr ⟨r.hid, rfl, Run.do_ok.mpr ⟨u, ?_, rfl⟩⟩⟩
    rwa [RBM.mutableData_positive]
  · rw [sample]
    exact sized.visSample
  · refine Eq.trans ?_ (copied n row i column)
    show LayerBlob.tensor (Function.update S.data r.vis u.data r.vis) r.vdim n i = _
    rw [Function.update_self]
    rfl

/-- The hidden layer computes the chances of its units for the data. -/
theorem hid_positive (wired : r.Wired w parsers) (sized : r.Sized w S) :
    ∃ S', w.computeFeature (r.net parsers) .kPositive S (hid r) = .ok S' ∧ r.Keeps w S S' ∧ S'.data r.vis = S.data r.vis ∧
      ∀ n < r.batchsize, ∀ j < r.hdim, (S'.data r.hid).tensor r.hdim n j = Op.sigmoid w.ops.exp
        (Exp.dot r.vdim ((S.data r.vis).tensor r.vdim) ((S.param (w.owner r.weight)).tensor r.hdim) n j +
          (S.param (w.owner r.hidBias)).dptr j) := by
  obtain ⟨u, run, data, sample, chances⟩ := (r.hidLayer α).positive_ok w.ops w.uniform (u := units S r.hid) sized.weight sized.hidBias
    sized.visData sized.hidData
  refine ⟨setUnits S r.hid u, ?_, RBM.Keeps.hid wired sized (data.trans sized.hidData) ?_,
    Function.update_of_ne wired.apart _ _, fun n row j column => ?_⟩
  · refine Run.do_ok.mpr ⟨r.vis, rfl, Run.do_ok.mpr ⟨u, ?_, rfl⟩⟩
    rwa [RBM.mutableData_positive, wired.shared]
  · rw [sample]
    exact sized.hidSample
  · refine Eq.trans ?_ (chances n row j column)
    show LayerBlob.tensor (Function.update S.data r.hid u.data r.hid) r.hdim n j = _
    rw [Function.update_self]
    rfl

/-! ## The negative phase -/

/-- The visible layer draws its sample from the hidden units. -/
theorem vis_negative (wired : r.Wired w parsers) (sized : r.Sized w S) :
    ∃ S', w.computeFeature (r.net parsers) .kNegative S (vis r) = .ok S' ∧ r.Keeps w S S' ∧ S'.data = S.data := by
  obtain ⟨u, run, data, sample⟩ := r.visLayer.negative_ok w.ops w.uniform (u := units S r.vis) sized.source rfl sized.hidSample
    sized.weight sized.visBias sized.visSample
  refine ⟨setUnits S r.vis u, ?_, RBM.Keeps.vis wired sized ?_ (sample.trans sized.visSample), ?_⟩
  · refine Run.do_ok.mpr ⟨r.data, rfl, Run.do_ok.mpr ⟨r.hid, rfl, Run.do_ok.mpr ⟨u, ?_, rfl⟩⟩⟩
    rwa [RBM.mutableData_positive, RBM.mutableData_hid]
  · rw [data]
    exact sized.visData
  · show Function.update S.data r.vis u.data = S.data
    rw [data]
    exact Function.update_eq_self _ _

/-- The hidden layer draws its sample from the visible units. -/
theorem hid_negative (wired : r.Wired w parsers) (sized : r.Sized w S) :
    ∃ S', w.computeFeature (r.net parsers) .kNegative S (hid r) = .ok S' ∧ r.Keeps w S S' ∧ S'.data = S.data := by
  obtain ⟨u, run, data, sample⟩ := (r.hidLayer α).negative_ok w.ops w.uniform (u := units S r.hid) sized.weight sized.hidBias
    sized.visSample sized.hidSample
  refine ⟨setUnits S r.hid u, ?_, RBM.Keeps.hid wired sized ?_ (sample.trans sized.hidSample), ?_⟩
  · refine Run.do_ok.mpr ⟨r.vis, rfl, Run.do_ok.mpr ⟨u, ?_, rfl⟩⟩
    rwa [RBM.mutableData_vis, wired.shared]
  · rw [data]
    exact sized.hidData
  · show Function.update S.data r.hid u.data = S.data
    rw [data]
    exact Function.update_eq_self _ _

omit [LinearOrder α] in
/-- A phase that is about RBM layers passes over the parsers. -/
theorem filter_parsers (wired : r.Wired w parsers) {p : CDLayer α → Bool}
    (none : ∀ l : CDLayer α, ∀ records, l.kind = .parser records → p l = false) :
    (r.net parsers).filter p = (r.layers α).filter p := by
  unfold RBM.net
  rw [List.filter_append, List.filter_eq_nil_iff.mpr, List.nil_append]
  intro l mem
  obtain ⟨records, kind, -⟩ := wired.parsers l mem
  rw [none l records kind]
  exact Bool.false_ne_true

/-- **Sampling changes the samples only**, for any number of rounds. -/
theorem negativePhase_ok (wired : r.Wired w parsers) (sized : r.Sized w S) :
    ∃ S', w.negativePhase (r.net parsers) S = .ok S' ∧ r.Keeps w S S' ∧ S'.data = S.data := by
  have two : (r.net parsers).filter (fun l => l.isVislayer || l.isHidlayer) = [vis r, hid r] := by
    rw [filter_parsers wired fun l records kind => by simp [CDLayer.isVislayer, CDLayer.isHidlayer, kind]]
    rfl
  unfold negativePhase
  rw [two]
  refine Run.foldlM_total (fun S' => r.Keeps w S S' ∧ S'.data = S.data) ?_ _ ⟨RBM.Keeps.refl sized, rfl⟩
  rintro S₁ - ⟨keeps, data⟩
  obtain ⟨S₂, first, keeps', data'⟩ := vis_negative wired keeps.sized
  obtain ⟨S₃, second, keeps'', data''⟩ := hid_negative wired keeps'.sized
  exact ⟨S₃, Run.foldlM_cons_ok first (Run.foldlM_cons_ok second rfl), keeps.trans (keeps'.trans keeps''),
    data''.trans (data'.trans data)⟩

/-! ## The gradients -/

omit [Field α] [LinearOrder α] in
/-- `Worker::Update` leaves the blobs to the servers. -/
theorem updateParam_served (served : ∀ p b, w.update p b = b) (params : List ℕ) (S : CDState α) :
    params.foldl w.updateParam S = S := by
  induction params generalizing S with
  | nil => rfl
  | cons p params ih =>
    have same : w.toBPWorker.updateParam S.toNetState p = S.toNetState := by
      rw [BPWorker.updateParam, served]
      dsimp only
      rw [Function.update_eq_self, Function.update_eq_self, Function.update_eq_self]
    rw [List.foldl_cons, updateParam, same, ih]

omit [LinearOrder α] in
/-- Where the servers update, the phase computes the gradients of three params. -/
theorem gradientPhase_ok (served : ∀ p b, w.update p b = b) (wired : r.Wired w parsers) (sized : r.Sized w S) :
    ∃ S', w.gradientPhase (r.net parsers) S = .ok S' ∧ r.Sized w S' ∧ S'.param = S.param ∧ S'.data = S.data ∧ S'.own = S.own ∧
      r.visLayer.computeGradient (S.data r.vis) (S.own r.vis) (S.data r.hid) (S.own r.hid) (S.paramGrad r.weight)
        (S.paramGrad r.visBias) = .ok (S'.paramGrad r.weight, S'.paramGrad r.visBias) ∧
      (r.hidLayer α).computeGradient (S.data r.hid) (S.own r.hid) (S.paramGrad r.hidBias) = .ok (S'.paramGrad r.hidBias) ∧
      ∀ p ∉ [r.weight, r.visBias, r.hidBias], S'.paramGrad p = S.paramGrad p := by
  obtain ⟨⟨gweight, gvis⟩, visible⟩ : ∃ g, r.visLayer.computeGradient (S.data r.vis) (S.own r.vis) (S.data r.hid) (S.own r.hid)
      (S.paramGrad r.weight) (S.paramGrad r.visBias) = .ok g :=
    ⟨_, if_pos ⟨sized.visData, sized.visSample, sized.hidData, sized.hidSample, sized.weightGrad, sized.visBiasGrad⟩⟩
  obtain ⟨ghid, hidden⟩ : ∃ g, (r.hidLayer α).computeGradient (S.data r.hid) (S.own r.hid) (S.paramGrad r.hidBias) = .ok g :=
    ⟨_, if_pos ⟨sized.hidData, sized.hidSample, sized.hidBiasGrad⟩⟩
  obtain ⟨sizeWeight, sizeVis⟩ := RBMVisLayer.computeGradient_counts visible
  have sizeHid := RBMHidLayer.computeGradient_count hidden
  obtain ⟨notVis, notHid, notHid'⟩ := wired.params
  set S' : CDState α := { S with
    paramGrad := Function.update (Function.update (Function.update S.paramGrad r.weight gweight) r.visBias gvis) r.hidBias ghid }
    with S'_eq
  have weight : S'.paramGrad r.weight = gweight := by
    rw [S'_eq]
    dsimp only
    rw [Function.update_of_ne notHid, Function.update_of_ne notVis, Function.update_self]
  have visBias : S'.paramGrad r.visBias = gvis := by
    rw [S'_eq]
    dsimp only
    rw [Function.update_of_ne notHid', Function.update_self]
  have hidBias : S'.paramGrad r.hidBias = ghid := Function.update_self _ _ _
  refine ⟨S', ?_, { sized with weightGrad := ?_, visBiasGrad := ?_, hidBiasGrad := ?_ }, rfl, rfl, rfl, ?_, ?_, fun p other => ?_⟩
  · have pass : (fun (S : CDState α) (l : CDLayer α) => (do
        let S ← computeGradient (r.net parsers) S l
        return l.params.foldl w.updateParam S : Run (CDState α))) = computeGradient (r.net parsers) := by
      funext S l
      simp only [updateParam_served served]
      exact bind_pure _
    unfold gradientPhase
    rw [pass]
    show (parsers ++ [vis r, hid r]).foldlM _ S = _
    rw [List.foldlM_append]
    have still : parsers.foldlM (computeGradient (r.net parsers)) S = .ok S := by
      refine Run.foldlM_same fun l mem => ?_
      obtain ⟨records, kind, -⟩ := wired.parsers l mem
      unfold computeGradient
      rw [kind]
    refine Run.do_ok.mpr ⟨S, still, Run.foldlM_cons_ok (Run.do_ok.mpr ⟨r.hid, rfl, Run.do_ok.mpr ⟨(gweight, gvis), ?_, rfl⟩⟩)
      (Run.foldlM_cons_ok (Run.do_ok.mpr ⟨ghid, ?_, rfl⟩) rfl)⟩
    · rwa [RBM.mutableData_positive, RBM.mutableData_hid]
    · dsimp only
      rwa [Function.update_of_ne notHid'.symm, Function.update_of_ne notHid.symm]
  · rw [weight, sizeWeight]
    exact sized.weightGrad
  · rw [visBias, sizeVis]
    exact sized.visBiasGrad
  · rw [hidBias, sizeHid]
    exact sized.hidBiasGrad
  · rw [weight, visBias]
    exact visible
  · rw [hidBias]
    exact hidden
  · simp only [List.mem_cons, List.not_mem_nil, or_false, not_or] at other
    rw [S'_eq]
    dsimp only
    rw [Function.update_of_ne other.2.2, Function.update_of_ne other.2.1, Function.update_of_ne other.1]

/-! ## The loss -/

/-- The loss draws hidden units once more, and leaves params, gradients and samples alone. -/
theorem lossPhase_ok (wired : r.Wired w parsers) (sized : r.Sized w S) :
    ∃ S', w.lossPhase (r.net parsers) S = .ok S' ∧ S'.param = S.param ∧ S'.paramGrad = S.paramGrad ∧ S'.own = S.own ∧
      S'.data r.vis = S.data r.vis ∧ S'.data r.data = S.data r.data := by
  have hids : (r.net parsers).filter CDLayer.isHidlayer = [hid r] := by
    rw [filter_parsers wired fun l records kind => by simp [CDLayer.isHidlayer, kind]]
    rfl
  have viss : (r.net parsers).filter CDLayer.isVislayer = [vis r] := by
    rw [filter_parsers wired fun l records kind => by simp [CDLayer.isVislayer, kind]]
    rfl
  unfold lossPhase
  rw [hids, viss]
  set u : RBMUnits α := { units S r.hid with
    data := sampleBinary w.uniform S.drawn r.hdim (S.data r.hid), drawn := S.drawn + (S.data r.hid).count } with u_eq
  have keeps : r.Keeps w S (setUnits S r.hid u) := RBM.Keeps.hid wired sized sized.hidData sized.hidSample
  obtain ⟨loss, scored⟩ : ∃ loss, r.visLayer.computeLoss w.ops ((setUnits S r.hid u).param (w.owner r.weight))
      ((setUnits S r.hid u).param (w.owner r.visBias)) ((setUnits S r.hid u).data r.data) ((setUnits S r.hid u).data r.hid) = .ok loss :=
    ⟨_, if_pos ⟨keeps.sized.source, keeps.sized.hidData, keeps.sized.weight, keeps.sized.visBias⟩⟩
  refine ⟨{ setUnits S r.hid u with reconstructError := some loss }, Run.do_ok.mpr ⟨setUnits S r.hid u,
    Run.foldlM_cons_ok (Run.do_ok.mpr ⟨r.vis, rfl, Run.do_ok.mpr ⟨u, rfl, rfl⟩⟩) rfl, Run.foldlM_cons_ok (Run.do_ok.mpr ⟨r.data, rfl,
      Run.do_ok.mpr ⟨r.hid, rfl, Run.do_ok.mpr ⟨loss, ?_, rfl⟩⟩⟩) rfl⟩, rfl, rfl, Function.update_eq_self _ _,
    Function.update_of_ne wired.apart _ _, keeps.source⟩
  rwa [RBM.mutableData_positive, RBM.mutableData_positive]

end CDWorker

/-! ## Contrastive divergence -/

namespace RBM

variable (r : RBM) (w : CDWorker ℝ)

/-- The machine that the params are. -/
def machine (P : NetState ℝ) : Boltzmann.Machine ℕ ℕ where
  visible := (P.param (w.owner r.visBias)).dptr
  hidden := (P.param (w.owner r.hidBias)).dptr
  weight := (P.param (w.owner r.weight)).tensor r.hdim

/-- The free energy of the data against the energy of the samples, in the mean over the batch. -/
noncomputable def contrast (P : NetState ℝ) (S : CDState ℝ) : ℝ :=
  (r.machine w P).contrast (Finset.range r.vdim) (Finset.range r.hdim) r.batchsize ((S.data r.vis).tensor r.vdim)
    ((S.own r.vis).tensor r.vdim) ((S.own r.hid).tensor r.hdim)

variable {r w} {parsers : List (CDLayer ℝ)} {P : NetState ℝ} {k : ℕ}

/-- A param that is given its own value. -/
theorem machine_self (o k : ℕ) : r.machine w (P.withParam o k ((P.param o).dptr k)) = r.machine w P := by
  unfold NetState.withParam
  rw [LayerBlob.replace_self, Function.update_eq_self]

/-- The blob that one float is moved in. -/
theorem dptr_moves {o : ℕ} (lt : k < (P.param o).count) :
    Velocity.Moves ((P.param o).dptr k) (fun x => ((P.withParam o k x).param o).dptr) fun i => if i = k then 1 else 0 := by
  simp only [P.withParam_self, LayerBlob.dptr_replace lt]
  exact Velocity.Moves.one _ k

/-- The other blobs stay. -/
theorem dptr_stays {o o' : ℕ} (other : o' ≠ o) (k : ℕ) (t : ℝ) :
    Velocity.Moves t (fun x => ((P.withParam o k x).param o').dptr) fun _ => 0 := by
  simp only [P.withParam_of_ne other]
  exact Velocity.Moves.const t _

variable (wired : r.Wired w parsers)
include wired

/-- The machine while one weight moves. -/
theorem moves_weight (lt : k < (P.param (w.owner r.weight)).count) :
    Boltzmann.Machine.Moves ((P.param (w.owner r.weight)).dptr k) (fun x => r.machine w (P.withParam (w.owner r.weight) k x))
      ⟨fun _ => 0, fun _ => 0, fun i j => if i * r.hdim + j = k then 1 else 0⟩ where
  visible := dptr_stays wired.owners.1.symm k _
  hidden := dptr_stays wired.owners.2.1.symm k _
  weight := fun i => (dptr_moves lt).at fun j => i * r.hdim + j

/-- The machine while one bias of the visible units moves. -/
theorem moves_visBias (lt : k < (P.param (w.owner r.visBias)).count) :
    Boltzmann.Machine.Moves ((P.param (w.owner r.visBias)).dptr k) (fun x => r.machine w (P.withParam (w.owner r.visBias) k x))
      ⟨fun i => if i = k then 1 else 0, fun _ => 0, fun _ _ => 0⟩ where
  visible := dptr_moves lt
  hidden := dptr_stays wired.owners.2.2.symm k _
  weight := fun i => (dptr_stays wired.owners.1 k _).at fun j => i * r.hdim + j

/-- The machine while one bias of the hidden units moves. -/
theorem moves_hidBias (lt : k < (P.param (w.owner r.hidBias)).count) :
    Boltzmann.Machine.Moves ((P.param (w.owner r.hidBias)).dptr k) (fun x => r.machine w (P.withParam (w.owner r.hidBias) k x))
      ⟨fun _ => 0, fun j => if j = k then 1 else 0, fun _ _ => 0⟩ where
  visible := dptr_stays wired.owners.2.2 k _
  hidden := dptr_moves lt
  weight := fun i => (dptr_stays wired.owners.2.1 k _).at fun j => i * r.hdim + j

omit wired in
/-- A gradient is the mean of what the samples have more than the data. -/
theorem mean_difference (rows : ℕ) (data sample : ℕ → ℝ) : (∑ n ∈ Finset.range rows, (-data n - -sample n)) / rows =
    (∑ n ∈ Finset.range rows, sample n - ∑ n ∈ Finset.range rows, data n) * (1 / (1 * rows)) := by
  rw [← Finset.sum_sub_distrib, one_mul, mul_one_div]
  refine congrArg (· / _) (Finset.sum_congr rfl fun n _ => ?_)
  ring

variable {S : CDState ℝ}

/-- The gradient of the weight is the contrast's. -/
theorem contrast_weight {gweight : LayerBlob ℝ} (lt : k < (P.param (w.owner r.weight)).count) (place : k < r.vdim * r.hdim)
    (chances : ∀ n < r.batchsize, ∀ j < r.hdim, (S.data r.hid).tensor r.hdim n j =
      Real.sigmoid ((r.machine w P).field (Finset.range r.vdim) ((S.data r.vis).tensor r.vdim n) j))
    (grad : ∀ i < r.vdim, ∀ j < r.hdim, gweight.tensor r.hdim i j =
      (∑ n ∈ Finset.range r.batchsize, (S.own r.vis).tensor r.vdim n i * (S.own r.hid).tensor r.hdim n j -
        ∑ n ∈ Finset.range r.batchsize, (S.data r.vis).tensor r.vdim n i * (S.data r.hid).tensor r.hdim n j) *
          (1 / (1 * r.batchsize))) :
    HasDerivAt (fun x => r.contrast w (P.withParam (w.owner r.weight) k x) S) (gweight.dptr k)
      ((P.param (w.owner r.weight)).dptr k) := by
  have pos : 0 < r.hdim := Nat.pos_of_ne_zero fun zero => by simp [zero] at place
  obtain ⟨number, column⟩ := Grid.cell_of_number k pos
  have row := Grid.row_lt place
  refine ((moves_weight wired lt).contrast _ _ _ _).congr_deriv ?_
  have unit : ∀ i ∈ Finset.range r.vdim, ∀ j ∈ Finset.range r.hdim,
      (if i * r.hdim + j = k then (1 : ℝ) else 0) = if i = k / r.hdim ∧ j = k % r.hdim then 1 else 0 := by
    intro i _ j inside
    refine if_congr ⟨fun same => ?_, ?_⟩ rfl rfl
    · exact Grid.number_inj (Finset.mem_range.mp inside) column (same.trans number.symm)
    · rintro ⟨rfl, rfl⟩
      exact number
  have here : gweight.dptr (k / r.hdim * r.hdim + k % r.hdim) = _ := grad _ row _ column
  rw [number] at here
  simp only [Boltzmann.Machine.energy_weight (Finset.mem_range.mpr row) (Finset.mem_range.mpr column) unit]
  rw [mean_difference, machine_self, here]
  refine congrArg (· * _) (congrArg₂ (· - ·) rfl (Finset.sum_congr rfl fun n mem => ?_))
  rw [← chances n (Finset.mem_range.mp mem) _ column]

/-- The gradient of the visible bias is the contrast's. -/
theorem contrast_visBias {gbias : LayerBlob ℝ} (lt : k < (P.param (w.owner r.visBias)).count) (place : k < r.vdim)
    (grad : ∀ i < r.vdim, gbias.dptr i = (∑ n ∈ Finset.range r.batchsize, (S.own r.vis).tensor r.vdim n i -
      ∑ n ∈ Finset.range r.batchsize, (S.data r.vis).tensor r.vdim n i) * (1 / (1 * r.batchsize))) :
    HasDerivAt (fun x => r.contrast w (P.withParam (w.owner r.visBias) k x) S) (gbias.dptr k)
      ((P.param (w.owner r.visBias)).dptr k) := by
  refine ((moves_visBias wired lt).contrast _ _ _ _).congr_deriv ?_
  simp only [Boltzmann.Machine.energy_visible (Finset.mem_range.mpr place)]
  rw [mean_difference, grad k place]

/-- The gradient of the hidden bias is the contrast's: it uses the chances of the units for the data. -/
theorem contrast_hidBias {gbias : LayerBlob ℝ} (lt : k < (P.param (w.owner r.hidBias)).count) (place : k < r.hdim)
    (chances : ∀ n < r.batchsize, ∀ j < r.hdim, (S.data r.hid).tensor r.hdim n j =
      Real.sigmoid ((r.machine w P).field (Finset.range r.vdim) ((S.data r.vis).tensor r.vdim n) j))
    (grad : ∀ j < r.hdim, gbias.dptr j = (∑ n ∈ Finset.range r.batchsize, (S.own r.hid).tensor r.hdim n j -
      ∑ n ∈ Finset.range r.batchsize, (S.data r.hid).tensor r.hdim n j) * (1 / (1 * r.batchsize))) :
    HasDerivAt (fun x => r.contrast w (P.withParam (w.owner r.hidBias) k x) S) (gbias.dptr k)
      ((P.param (w.owner r.hidBias)).dptr k) := by
  refine ((moves_hidBias wired lt).contrast _ _ _ _).congr_deriv ?_
  simp only [Boltzmann.Machine.energy_hidden (Finset.mem_range.mpr place)]
  rw [mean_difference, machine_self, grad k place]
  refine congrArg (· * _) (congrArg₂ (· - ·) rfl (Finset.sum_congr rfl fun n mem => ?_))
  rw [← chances n (Finset.mem_range.mp mem) _ place]

end RBM

namespace CDWorker

variable {r : RBM} {w : CDWorker ℝ} {parsers : List (CDLayer ℝ)} {S : CDState ℝ} {fltMin : ℝ}

/-- The data are those of the source, and the hidden units have their chances of being on. -/
theorem positivePhase_ok (real : w.ops = FloatOps.real fltMin) (wired : r.Wired w parsers) (sized : r.Sized w S) :
    ∃ S', w.positivePhase (r.net parsers) S = .ok S' ∧ r.Sized w S' ∧ S'.param = S.param ∧ S'.paramGrad = S.paramGrad ∧
      (∀ n < r.batchsize, ∀ i < r.vdim, (S'.data r.vis).tensor r.vdim n i = (S'.data r.data).tensor r.vdim n i) ∧
      ∀ n < r.batchsize, ∀ j < r.hdim, (S'.data r.hid).tensor r.hdim n j =
        Real.sigmoid ((r.machine w S.toNetState).field (Finset.range r.vdim) ((S'.data r.vis).tensor r.vdim n) j) := by
  obtain ⟨S₁, run₁, sized₁, param₁, paramGrad₁⟩ := parsers_ok wired sized
  obtain ⟨S₂, run₂, keeps₂, copied⟩ := vis_positive wired sized₁
  obtain ⟨S₃, run₃, keeps₃, data₃, chances⟩ := hid_positive wired keeps₂.sized
  have param₂ : S₂.param = S.param := keeps₂.param.trans param₁
  refine ⟨S₃, ?_, keeps₃.sized, keeps₃.param.trans param₂, keeps₃.paramGrad.trans (keeps₂.paramGrad.trans paramGrad₁), ?_, ?_⟩
  · show (parsers ++ [vis r, hid r]).foldlM _ S = _
    rw [List.foldlM_append]
    exact Run.do_ok.mpr ⟨S₁, run₁, Run.foldlM_cons_ok run₂ (Run.foldlM_cons_ok run₃ rfl)⟩
  · intro n row i column
    rw [data₃, keeps₃.source, keeps₂.source]
    exact copied n row i column
  · intro n row j column
    rw [chances n row j column, data₃, real, param₂, Op.sigmoid, one_div]
    rfl

/-- **Contrastive divergence.** Whatever the negative phase has sampled, the gradients that a batch leaves for the servers are
the partial derivatives of the mean free energy of the data less the mean energy of the samples. Only three params get a
gradient: the hidden layer's own one for the weight keeps what it had, and is sent to the servers all the same. -/
theorem trainOneBatch_contrast (real : w.ops = FloatOps.real fltMin) (served : ∀ p b, w.update p b = b) (wired : r.Wired w parsers)
    (sized : r.Sized w S) : ∃ S', w.trainOneBatch (r.net parsers) S = .ok S' ∧ S'.param = S.param ∧
      (∀ n < r.batchsize, ∀ i < r.vdim, (S'.data r.vis).tensor r.vdim n i = (S'.data r.data).tensor r.vdim n i) ∧
      (∀ p ∈ [r.weight, r.visBias, r.hidBias], ∀ k < (S.param (w.owner p)).count,
        HasDerivAt (fun x => r.contrast w (S.withParam (w.owner p) k x) S') ((S'.paramGrad p).dptr k)
          ((S.param (w.owner p)).dptr k)) ∧
      ∀ p ∉ [r.weight, r.visBias, r.hidBias], S'.paramGrad p = S.paramGrad p := by
  obtain ⟨S₃, run₃, sized₃, param₃, paramGrad₃, copied, chances⟩ := positivePhase_ok real wired sized
  obtain ⟨S₄, run₄, keeps₄, data₄⟩ := negativePhase_ok wired sized₃
  obtain ⟨S₅, run₅, sized₅, param₅, data₅, own₅, visible, hidden, others⟩ := gradientPhase_ok served wired keeps₄.sized
  obtain ⟨S', run₆, param₆, paramGrad₆, own₆, vis₆, source₆⟩ := lossPhase_ok wired sized₅
  have vis : S'.data r.vis = S₄.data r.vis := by rw [vis₆, data₅]
  have source : S'.data r.data = S₄.data r.data := by rw [source₆, data₅]
  refine ⟨S', Run.do_ok.mpr ⟨S₃, run₃, Run.do_ok.mpr ⟨S₄, run₄, Run.do_ok.mpr ⟨S₅, run₅, run₆⟩⟩⟩,
    by rw [param₆, param₅, keeps₄.param, param₃], by rwa [vis, source, data₄], ?_, fun p other => ?_⟩
  swap
  · rw [paramGrad₆, others p other, keeps₄.paramGrad, paramGrad₃]
  -- the loss samples the hidden units anew, but the contrast is that of the samples of the negative phase
  have same : ∀ P, r.contrast w P S' = r.contrast w P S₄ := by
    intro P
    unfold RBM.contrast
    rw [vis, own₆, own₅]
  simp only [same, paramGrad₆]
  rw [← data₄] at chances
  have some : 0 < r.visLayer.batchsize := wired.some
  obtain ⟨gweight, gvis⟩ := RBMVisLayer.computeGradient_ok some some visible
  have ghid := RBMHidLayer.computeGradient_ok wired.some wired.some hidden
  intro p listed k lt
  have cases : p = r.weight ∨ p = r.visBias ∨ p = r.hidBias := by simpa using listed
  rcases cases with rfl | rfl | rfl
  · exact RBM.contrast_weight wired lt (by rwa [sized.weight] at lt) chances gweight
  · exact RBM.contrast_visBias wired lt (by rwa [sized.visBias] at lt) gvis
  · exact RBM.contrast_hidBias wired lt (by rwa [sized.hidBias] at lt) chances ghid

/-! ## One visible and one hidden unit -/

/-- A blob of one float. -/
def oneFloat (x : ℝ) : LayerBlob ℝ := ⟨[1, 1], [x], rfl⟩

/-- The visible and the hidden layer share their weight. -/
def tinyRBM : RBM where
  data := 0
  vis := 1
  hid := 2
  weight := 0
  visBias := 1
  hidWeight := 2
  hidBias := 3
  batchsize := 1
  vdim := 1
  hdim := 1

/-- A worker of a net with servers. -/
noncomputable def tinyCDWorker : CDWorker ℝ where
  id := 0
  env := fun _ => ⟨FloatMath.real, 1, fun _ => 0⟩
  ops := FloatOps.real 0
  owner := fun p => if p = 2 then 0 else p
  update := fun _ b => b
  pcdK := 15
  uniform := fun _ => 0

def tinyParsers : List (CDLayer ℝ) := [⟨0, .parser (oneFloat 1), [], []⟩]

noncomputable def tinyCDState : CDState ℝ where
  data := fun _ => oneFloat 0
  own := fun _ => oneFloat 0
  grad := fun _ => none
  param := fun _ => oneFloat 1
  paramGrad := fun _ => oneFloat 0
  history := fun _ => oneFloat 0
  perf := []
  first := fun _ => true
  drawn := 0
  reconstructError := none

theorem tiny_wired : tinyRBM.Wired tinyCDWorker tinyParsers where
  apart := by decide
  parsers := by
    intro l mem
    obtain rfl := List.mem_singleton.mp mem
    exact ⟨oneFloat 1, rfl, by decide, by decide, fun _ => rfl⟩
  fed := by decide
  params := by decide
  shared := rfl
  owners := by decide
  some := Nat.one_pos

theorem tiny_sized : tinyRBM.Sized tinyCDWorker tinyCDState := ⟨rfl, rfl, rfl, rfl, rfl, rfl, rfl, rfl, rfl, rfl, rfl⟩

/-- The first batch, with one sample. -/
theorem trainOneBatch_contrast_tiny : ∃ S', tinyCDWorker.trainOneBatch (tinyRBM.net tinyParsers) tinyCDState = .ok S' ∧
    S'.param = tinyCDState.param ∧ (∀ n < 1, ∀ i < 1, (S'.data 1).tensor 1 n i = (S'.data 0).tensor 1 n i) ∧
    (∀ p ∈ [0, 1, 3], ∀ k < (tinyCDState.param (tinyCDWorker.owner p)).count,
      HasDerivAt (fun x => tinyRBM.contrast tinyCDWorker (tinyCDState.withParam (tinyCDWorker.owner p) k x) S')
        ((S'.paramGrad p).dptr k) ((tinyCDState.param (tinyCDWorker.owner p)).dptr k)) ∧
    ∀ p ∉ [0, 1, 3], S'.paramGrad p = tinyCDState.paramGrad p :=
  trainOneBatch_contrast rfl (fun _ _ => rfl) tiny_wired tiny_sized

end CDWorker

end Singa
