import Singa.Trainer.BackProp

/-!
# Updates in place

With an updater of its own, a worker updates the params of a layer as soon as
their gradients are computed, in the middle of `Backward`. Where no two params
share an owner, no gradient that is computed later reads them, and the whole
batch is one step from the params before it.
-/

namespace Singa
set_option autoImplicit false

open Mshadow SoftmaxLossLayer

namespace BPWorker

variable {α : Type} [Field α] [LinearOrder α] {w : BPWorker α} {S S' : NetState α}

omit [Field α] [LinearOrder α] in
theorem assign_update (grads : ℕ → LayerBlob α) {params : List ℕ} {p : ℕ} (fresh : p ∉ params) (gparams : List (LayerBlob α))
    (g : LayerBlob α) : assign (Function.update grads p g) params gparams = Function.update (assign grads params gparams) p g := by
  unfold assign
  induction params generalizing grads gparams with
  | nil => rfl
  | cons q params ih =>
    cases gparams with
    | nil => rfl
    | cons h gparams =>
      obtain ⟨other, fresh⟩ := not_or.mp (List.mem_cons.not.mp fresh)
      rw [List.zip_cons_cons, List.foldl_cons, List.foldl_cons, Function.update_comm other]
      exact ih _ fresh _

/-- **A layer computes its gradients past the update of a param that it does not read.** -/
theorem computeGradient_updateParam {l : WorkerLayer α} {p : ℕ} (fresh : p ∉ l.params) (unread : w.owner p ∉ l.params.map w.owner) :
    w.computeGradient (w.updateParam S p) l = (w.updateParam · p) <$> w.computeGradient S l := by
  have read : w.params (w.updateParam S p) l = w.params S l := by
    refine List.map_congr_left fun q mem => ?_
    refine Function.update_of_ne ?_ _ _
    intro same
    exact unread (same ▸ List.mem_map_of_mem mem)
  have grads : l.params.map (w.updateParam S p).paramGrad = l.params.map S.paramGrad := by
    refine List.map_congr_left fun q mem => Function.update_of_ne ?_ _ _
    rintro rfl
    exact fresh mem
  have gradSame : (w.updateParam S p).grad = S.grad := rfl
  have dataSame : (w.updateParam S p).data = S.data := rfl
  have ownSame : (w.updateParam S p).own = S.own := rfl
  obtain ⟨id, partitionId, kind, srclayers, params⟩ := l
  cases kind with
  | parser records => rfl
  | neuron layer =>
    cases srclayers with
    | nil => rfl
    | cons src srclayers =>
      unfold computeGradient
      dsimp only at read grads ⊢
      rw [read, grads]
      rw [gradSame, dataSame, ownSame]
      cases deref (S.grad id) with
      | error e => rfl
      | ok grad =>
        simp only [bind, Except.bind]
        split
        · rfl
        · next r wrote =>
          refine congrArg Except.ok ?_
          have own : assign S.paramGrad params r.1 p = S.paramGrad p := assign_of_notMem fresh
          unfold updateParam
          dsimp only
          rw [own, assign_update _ fresh]
  | softmaxLoss layer =>
    rcases srclayers with _ | ⟨src, _ | ⟨label, _ | _⟩⟩
    case cons.cons.nil =>
      unfold computeGradient
      dsimp only
      rw [gradSame, dataSame]
      cases deref (S.grad src) with
      | error e => rfl
      | ok gsrc =>
        simp only [bind, Except.bind]
        split
        · rfl
        · rfl
    all_goals rfl

theorem computeGradient_updates {l : WorkerLayer α} {params : List ℕ}
    (apart : ∀ p ∈ params, p ∉ l.params ∧ w.owner p ∉ l.params.map w.owner) (S : NetState α) :
    w.computeGradient (params.foldl w.updateParam S) l = (params.foldl w.updateParam ·) <$> w.computeGradient S l := by
  induction params generalizing S with
  | nil => exact (id_map _).symm
  | cons p params ih =>
    obtain ⟨fresh, unread⟩ := apart p List.mem_cons_self
    rw [List.foldl_cons, ih (fun q mem => apart q (List.mem_cons_of_mem p mem)), computeGradient_updateParam fresh unread,
      Functor.map_map]
    rfl

/-- **The updates can wait**: `Backward` is the computation of all gradients, and after it all updates. -/
theorem backward_eq (layers : List (WorkerLayer α)) (unshared : ((layers.flatMap WorkerLayer.params).map w.owner).Nodup)
    (S : NetState α) : layers.reverse.foldlM w.backwardLayer S =
      ((layers.reverse.flatMap WorkerLayer.params).foldl w.updateParam ·) <$> w.gradients layers S := by
  induction layers with
  | nil => rfl
  | cons l layers ih =>
    rw [List.flatMap_cons, List.map_append, List.nodup_append] at unshared
    obtain ⟨-, later, apart⟩ := unshared
    have disjoint : ∀ p ∈ layers.reverse.flatMap WorkerLayer.params, p ∉ l.params ∧ w.owner p ∉ l.params.map w.owner := by
      intro p mem
      obtain ⟨a, listed, here⟩ := List.mem_flatMap.mp mem
      have there : w.owner p ∈ (layers.flatMap WorkerLayer.params).map w.owner :=
        List.mem_map_of_mem (List.mem_flatMap.mpr ⟨a, List.mem_reverse.mp listed, here⟩)
      exact ⟨fun own => apart _ (List.mem_map_of_mem own) _ there rfl, fun own => apart _ own _ there rfl⟩
    have gradients : w.gradients (l :: layers) S = w.gradients layers S >>= fun G => w.computeGradient G l := by
      unfold BPWorker.gradients
      rw [List.reverse_cons, List.foldlM_append]
      refine bind_congr fun G => ?_
      rw [List.foldlM_cons]
      simp
    rw [gradients, List.reverse_cons, List.foldlM_append, ih later, List.flatMap_append]
    cases w.gradients layers S with
    | error e => rfl
    | ok G =>
      show List.foldlM w.backwardLayer ((layers.reverse.flatMap WorkerLayer.params).foldl w.updateParam G) [l] =
        _ <$> w.computeGradient G l
      rw [List.foldlM_cons, backwardLayer, computeGradient_updates disjoint]
      cases w.computeGradient G l with
      | error e => rfl
      | ok G' =>
        show Except.ok _ = Except.ok _
        dsimp only
        rw [List.foldl_append]
        simp

omit [Field α] [LinearOrder α] in
/-- What one update after the other has made of the params. -/
theorem updates_param {params : List ℕ} (unshared : (params.map w.owner).Nodup) (G : NetState α) :
    (∀ p ∈ params, (params.foldl w.updateParam G).param (w.owner p) =
      (w.update p (G.param (w.owner p), G.paramGrad p, G.history p)).1) ∧
    ∀ o ∉ params.map w.owner, (params.foldl w.updateParam G).param o = G.param o := by
  induction params generalizing G with
  | nil => exact ⟨by simp, fun _ _ => rfl⟩
  | cons p params ih =>
    obtain ⟨fresh, unshared⟩ := List.nodup_cons.mp unshared
    obtain ⟨done, kept⟩ := ih unshared (w.updateParam G p)
    refine ⟨fun q mem => ?_, fun o other => ?_⟩
    · rcases List.mem_cons.mp mem with rfl | mem
      · rw [List.foldl_cons, kept _ fresh]
        exact Function.update_self _ _ _
      · have other : q ≠ p := fun same => fresh (same ▸ List.mem_map_of_mem mem)
        have owner : w.owner q ≠ w.owner p := fun same => fresh (same ▸ List.mem_map_of_mem mem)
        rw [List.foldl_cons, done q mem]
        unfold updateParam
        dsimp only
        rw [Function.update_of_ne owner, Function.update_of_ne other, Function.update_of_ne other]
    · rw [List.map_cons, List.mem_cons, not_or] at other
      rw [List.foldl_cons, kept o other.2]
      exact Function.update_of_ne other.1 _ _

/-- A param that shares with no other one has the gradient of its owner. -/
theorem gradientAt_unshared {w : BPWorker ℝ} {net : List (WorkerLayer ℝ)} {G : NetState ℝ} {p : ℕ}
    (unshared : (((w.layers net).flatMap WorkerLayer.params).map w.owner).Nodup)
    (mem : p ∈ (w.layers net).flatMap WorkerLayer.params) (k : ℕ) : w.gradientAt net G (w.owner p) k = (G.paramGrad p).dptr k := by
  have only : ((w.layers net).flatMap WorkerLayer.params).map (fun q => if w.owner q = w.owner p then (G.paramGrad q).dptr k else 0) =
      ((w.layers net).flatMap WorkerLayer.params).map fun q => if q = p then (G.paramGrad p).dptr k else 0 := by
    refine List.map_congr_left fun q listed => ?_
    by_cases same : q = p
    · rw [if_pos same, if_pos (congrArg w.owner same), same]
    · rw [if_neg same, if_neg fun owners => same (List.inj_on_of_nodup_map unshared listed mem owners)]
  rw [gradientAt, only]
  refine sum_single _ ⟨p, mem, rfl⟩ ?_
  refine unshared.of_map.imp fun other here there => other (here.trans there.symm)

/-! ## A net with two inner product layers -/

section Tiny

def zeros (shape : List ℕ) : LayerBlob ℝ := ⟨shape, List.replicate shape.prod 0, List.length_replicate⟩

/-- The numbers from 1 on. -/
def rising (shape : List ℕ) : LayerBlob ℝ := ⟨shape, (List.range shape.prod).map fun i => (i : ℝ) + 1, by simp⟩

/-- For every sample a number, and a label of two classes. -/
structure Batch (samples : ℕ) where
  labels : LayerBlob ℝ
  numbers : LayerBlob ℝ
  labelShape : labels.shape = [samples]
  numberShape : numbers.shape = [samples, 1]
  classes : ∀ label ∈ labels.values, label = 0 ∨ label = 1

variable {w : BPWorker ℝ} {samples : ℕ} (batch : Batch samples)

def tinyNet (partitionId : ℕ) : List (WorkerLayer ℝ) :=
  [⟨0, partitionId, .parser batch.labels, [], []⟩,
    ⟨1, partitionId, .parser batch.numbers, [], []⟩,
    ⟨2, partitionId, .neuron (.innerProduct ⟨samples, 1, 2⟩), [1], [0, 1]⟩,
    ⟨3, partitionId, .neuron (.innerProduct ⟨samples, 2, 2⟩), [2], [2, 3]⟩,
    ⟨4, partitionId, .softmaxLoss ⟨samples, 2, 1, 1, zeros []⟩, [3, 0], []⟩]

/-- The shapes of weight and bias of the two layers. -/
def tinyShape : ℕ → List ℕ
  | 0 => [1, 2]
  | 2 => [2, 2]
  | _ => [2]

def tinyState (samples : ℕ) : NetState ℝ where
  data := fun _ => zeros [samples, 2]
  own := fun _ => zeros [samples, 2]
  grad := fun i => if i = 2 ∨ i = 3 then some (zeros [samples, 2]) else none
  param := fun p => rising (tinyShape p)
  paramGrad := fun p => zeros (tinyShape p)
  history := fun p => zeros (tinyShape p)
  perf := []

noncomputable def tinyWorker (update : ℕ → ParamBlobs ℝ → ParamBlobs ℝ) : BPWorker ℝ where
  id := 0
  env := fun _ => ⟨FloatMath.real, 1, fun _ => 0⟩
  ops := FloatOps.real 0
  owner := fun p => p
  update := update

theorem tiny_layers : w.layers (tinyNet batch w.id) = tinyNet batch w.id := by
  simp [layers, tinyNet]

variable {batch}

theorem Batch.toInt_class {label : ℝ} (mem : label ∈ batch.labels.values) :
    0 ≤ (FloatOps.real 0).toInt label ∧ (FloatOps.real 0).toInt label < 2 := by
  rcases batch.classes label mem with rfl | rfl <;> simp [FloatOps.real]

theorem Batch.labelCount : batch.labels.count = samples := by
  simp [LayerBlob.count, batch.labelShape]

/-- An inner product layer that its blobs fit. -/
theorem innerProduct_made (layer : InnerProductLayer) (S : NetState ℝ) (id partitionId src p q : ℕ)
    (owner : w.owner = fun p => p) (fits : layer.Fits (S.param p) (S.param q) (S.data src) (S.data id)) :
    ∃ feature, w.computeFeature true S ⟨id, partitionId, .neuron (.innerProduct layer), [src], [p, q]⟩ =
      .ok { S with data := Function.update S.data id feature, own := Function.update S.own id (S.own id) } ∧
      feature.shape = (S.data id).shape := by
  have made : ∃ feature, layer.computeFeature (S.param p) (S.param q) (S.data src) (S.data id) = .ok feature :=
    ⟨_, if_pos fits⟩
  obtain ⟨feature, made⟩ := made
  have params : w.params S ⟨id, partitionId, .neuron (.innerProduct layer), [src], [p, q]⟩ = [S.param p, S.param q] := by
    rw [BPWorker.params, owner]
    rfl
  have ran : (NeuronLayer.innerProduct layer).computeFeature (w.env id) true [S.param p, S.param q] (S.own id) (S.data src)
      (S.data id) = .ok (S.own id, feature) := NeuronLayer.map_own_ok.mpr ⟨rfl, made⟩
  rw [← params] at ran
  exact ⟨feature, Run.do_ok.mpr ⟨_, ran, rfl⟩, (InnerProductLayer.computeFeature_ok _ made).2.1⟩

/-- The same in `Backward`: the gradient of the source, if there is one, keeps its size. -/
theorem innerProduct_back (layer : InnerProductLayer) (S : NetState ℝ) (id partitionId src p q : ℕ) {g : LayerBlob ℝ}
    (owner : w.owner = fun p => p) (grad : S.grad id = some g)
    (fits : layer.Fits (S.param p) (S.param q) (S.data src) g) (gweight : (S.paramGrad p).count = (S.param p).count)
    (gbias : (S.paramGrad q).count = (S.param q).count) (gsrc : ∀ h ∈ S.grad src, h.count = (S.data src).count) :
    ∃ S', w.computeGradient S ⟨id, partitionId, .neuron (.innerProduct layer), [src], [p, q]⟩ = .ok S' ∧
      ∀ h ∈ S'.grad src, h.count = (S.data src).count := by
  have params : w.params S ⟨id, partitionId, .neuron (.innerProduct layer), [src], [p, q]⟩ = [S.param p, S.param q] := by
    rw [BPWorker.params, owner]
    rfl
  have back : ∃ r, (NeuronLayer.innerProduct layer).computeGradient (w.env id) [S.param p, S.param q] (S.own id) (S.data src)
      (S.data id) g [S.paramGrad p, S.paramGrad q] (S.grad src) = .ok r ∧ ∀ h ∈ r.2, h.count = (S.data src).count := by
    refine ⟨_, Run.do_ok.mpr ⟨_, if_pos ⟨fits, gweight, gbias, gsrc⟩, rfl⟩, fun h mem => ?_⟩
    obtain ⟨old, there, rfl⟩ := Option.map_eq_some_iff.mp mem
    exact gsrc old there
  obtain ⟨r, wrote, size⟩ := back
  rw [← params] at wrote
  refine ⟨_, Run.do_ok.mpr ⟨g, by rw [grad]; rfl, Run.do_ok.mpr ⟨r, wrote, rfl⟩⟩, fun h mem => size h ?_⟩
  have here : h ∈ Function.update S.grad src r.2 src := mem
  rwa [Function.update_self] at here

/-- The state after `Forward`, as far as `Backward` reads it. -/
structure Scores (batch : Batch samples) (S : NetState ℝ) : Prop where
  grad : S.grad = (tinyState samples).grad
  param : S.param = (tinyState samples).param
  paramGrad : S.paramGrad = (tinyState samples).paramGrad
  labels : S.data 0 = batch.labels
  numbers : S.data 1 = batch.numbers
  hidden : (S.data 2).shape = [samples, 2]
  feature : (S.data 3).shape = [samples, 2]
  prob : (S.data 4).shape = [samples, 2]
  likely : ∀ n < samples, ∀ j < 2, 0 < (S.data 4).dptr (n * 2 + j)

variable (batch) in
theorem tiny_forward (ops : w.ops = FloatOps.real 0) (owner : w.owner = fun p => p) (pos : 0 < samples) :
    ∃ S, (tinyNet batch w.id).foldlM (w.computeFeature true) (tinyState samples) = .ok S ∧ Scores batch S := by
  have count {b : LayerBlob ℝ} {shape : List ℕ} (same : b.shape = shape) : b.count = shape.prod := congrArg List.prod same
  let S₂ : NetState ℝ := { tinyState samples with
    data := Function.update (Function.update (tinyState samples).data 0 batch.labels) 1 batch.numbers }
  obtain ⟨hidden, first, hiddenShape⟩ := innerProduct_made ⟨samples, 1, 2⟩ S₂ 2 w.id 1 0 1 owner
    ⟨by simp [S₂, count batch.numberShape], rfl, rfl, by simp [S₂, tinyState, zeros, LayerBlob.count], pos⟩
  let S₃ : NetState ℝ := { S₂ with
    data := Function.update S₂.data 2 hidden, own := Function.update S₂.own 2 (S₂.own 2) }
  have hiddenShape' : hidden.shape = [samples, 2] := hiddenShape
  obtain ⟨feature, second, featureShape⟩ := innerProduct_made ⟨samples, 2, 2⟩ S₃ 3 w.id 2 2 3 owner
    ⟨by simp [S₃, count hiddenShape'], rfl, rfl, by simp [S₃, S₂, tinyState, zeros, LayerBlob.count], pos⟩
  have featureShape' : feature.shape = [samples, 2] := featureShape
  have whole : (zeros [samples, 2]).count = samples * 2 := by simp [zeros, LayerBlob.count]
  have total : ∃ r, ((SoftmaxLossLayer.mk samples 2 1 1 (zeros [samples, 2])).computeFeature (FloatOps.real 0) feature
      batch.labels).result = .ok r :=
    computeFeature_total (FloatOps.real 0) whole (by rw [count featureShape', whole]; simp) one_le_two batch.labelCount
      (fun label mem => ⟨(batch.toInt_class mem).1, (batch.toInt_class mem).2.trans (by decide)⟩)
      (fun label mem => (batch.toInt_class mem).2)
  obtain ⟨⟨layer', loss, accuracy⟩, scored⟩ := total
  have predicted := (computeFeature_returned scored).1
  obtain ⟨data, shape', here⟩ := predict_layer predicted
  refine ⟨_, Run.foldlM_cons_ok rfl (Run.foldlM_cons_ok rfl (Run.foldlM_cons_ok first (Run.foldlM_cons_ok second
    (Run.foldlM_cons_ok (Run.do_ok.mpr ⟨(layer', loss, accuracy), ?_, rfl⟩) rfl)))),
    rfl, rfl, rfl, rfl, rfl, hiddenShape', featureShape', ?_, ?_⟩
  · rw [← ops] at scored
    exact scored
  · show layer'.data.shape = [samples, 2]
    rw [here]
    exact shape'
  · intro n lt j column
    show 0 < layer'.data.dptr (n * 2 + j)
    have share := predict_share whole (by rw [count featureShape', whole]; simp) predicted lt column
    rw [share]
    exact Velocity.share_pos (Finset.mem_range.mpr column) _

theorem tiny_gradients (ops : w.ops = FloatOps.real 0) (owner : w.owner = fun p => p) (pos : 0 < samples) {S : NetState ℝ}
    (scores : Scores batch S) : ∃ G, w.gradients (tinyNet batch w.id) S = .ok G := by
  have count {b : LayerBlob ℝ} {shape : List ℕ} (same : b.shape = shape) : b.count = shape.prod := congrArg List.prod same
  have whole : (S.data 4).count = samples * 2 := by simp [count scores.prob]
  have subtract : ∃ g, (SoftmaxLossLayer.mk samples 2 1 1 (S.data 4)).computeGradient (FloatOps.real 0) (zeros [samples, 2])
      (S.data 0) = .ok g ∧ g.count = samples * 2 := by
    refine ⟨_, Run.do_ok.mpr ⟨_, subtractLabels_eq _ _ (scores.prob ▸ rfl) whole (by rw [scores.labels, batch.labelCount])
      (fun label mem => ?_), rfl⟩, ?_⟩
    · rw [scores.labels] at mem
      exact batch.toInt_class mem
    · exact whole
  obtain ⟨g, scored, size⟩ := subtract
  let S₄ : NetState ℝ := { S with grad := Function.update S.grad 3 (some g) }
  have last : w.computeGradient S ⟨4, w.id, .softmaxLoss ⟨samples, 2, 1, 1, zeros []⟩, [3, 0], []⟩ = .ok S₄ := by
    refine Run.do_ok.mpr ⟨zeros [samples, 2], by rw [scores.grad]; rfl, Run.do_ok.mpr ⟨g, ?_, rfl⟩⟩
    rw [← ops] at scored
    exact scored
  have shaped (p : ℕ) : (S.param p).count = (tinyShape p).prod := by
    rw [scores.param]
    rfl
  have blob {p : ℕ} : (S.paramGrad p).count = (S.param p).count := by
    rw [scores.param, scores.paramGrad]
    rfl
  obtain ⟨S₃, second, size'⟩ := innerProduct_back ⟨samples, 2, 2⟩ S₄ 3 w.id 2 2 3 (g := g) owner (by simp [S₄])
    ⟨by simp [S₄, count scores.hidden], shaped 2, shaped 3, size, pos⟩ blob blob
    (by
      intro h mem
      have there : h ∈ S.grad 2 := by simpa [S₄] using mem
      rw [scores.grad] at there
      obtain rfl := Option.some.inj there
      exact (count scores.hidden).symm)
  have frame := computeGradient_frame second
  have hidden : ∃ h, S₃.grad 2 = some h := by
    refine Option.ne_none_iff_exists'.mp fun none => ?_
    have before := (frame.null 2).mp none
    simp [S₄, scores.grad, tinyState] at before
  obtain ⟨h, hidden⟩ := hidden
  obtain ⟨S₂, first, -⟩ := innerProduct_back ⟨samples, 1, 2⟩ S₃ 2 w.id 1 0 1 owner hidden
    ⟨by simp [frame.data, S₄, scores.numbers, count batch.numberShape], by rw [frame.param]; exact shaped 0,
      by rw [frame.param]; exact shaped 1,
      by rw [size' h hidden]; simp [S₄, count scores.hidden], pos⟩
    (by rw [frame.counts, frame.param]; exact blob) (by rw [frame.counts, frame.param]; exact blob)
    (by
      intro h mem
      rw [frame.grad 1 (by simp [WorkerLayer.target, WorkerLayer.sources])] at mem
      simp [S₄, scores.grad, tinyState] at mem)
  exact ⟨S₂, Run.foldlM_cons_ok last (Run.foldlM_cons_ok second (Run.foldlM_cons_ok first rfl))⟩

theorem tiny_wired (partitionId : ℕ) : Wired (tinyNet batch partitionId) (tinyState samples).grad := by
  refine ⟨?_, ?_, ?_, ?_, ?_, ?_, ?_⟩
  · simp [tinyNet, WorkerLayer.sources]
  · simp [tinyNet, WorkerLayer.sources]
  · simp [tinyNet, WorkerLayer.isNeuron, tinyState]
  · simp [tinyNet, WorkerLayer.isParser, WorkerLayer.target, WorkerLayer.sources, tinyState]
  · simp [tinyNet, WorkerLayer.target, WorkerLayer.sources, tinyState]
  · simp [tinyNet, WorkerLayer.target, WorkerLayer.sources, tinyState]
  · simp [tinyNet]

theorem tiny_smooth {S : NetState ℝ} (scores : Scores batch S) :
    ∀ l ∈ tinyNet batch w.id, w.Smooth 0 (Fixed (tinyNet batch w.id)) S l := by
  have count {b : LayerBlob ℝ} {shape : List ℕ} (same : b.shape = shape) : b.count = shape.prod := congrArg List.prod same
  have scored : Scored 0 ⟨samples, 2, 1, 1, zeros []⟩ (S.data 4) (S.data 3) (S.data 0) (S.grad 3) := by
    refine ⟨by simp [count scores.prob], one_le_two, by rw [scores.labels, batch.labelCount], fun label mem => ?_,
      fun label mem => ?_, congrArg List.prod (scores.feature.trans scores.prob.symm), fun n lt => ?_, fun g mem => ?_⟩
    · rw [scores.labels] at mem
      exact batch.toInt_class mem
    · rw [scores.labels] at mem
      exact (batch.toInt_class mem).2.trans (by decide)
    · have listed : (S.data 0).dptr n ∈ batch.labels.values := by
        rw [scores.labels]
        exact LayerBlob.dptr_mem (batch.labelCount.symm ▸ lt)
      obtain ⟨low, high⟩ := batch.toInt_class listed
      exact scores.likely n lt _ (by omega)
    · rw [scores.grad] at mem
      rw [← Option.some.inj mem, scores.prob]
      rfl
  intro l mem
  simp only [tinyNet, List.mem_cons, List.not_mem_nil, or_false] at mem
  rcases mem with rfl | rfl | rfl | rfl | rfl
  · trivial
  · trivial
  · trivial
  · trivial
  · refine ⟨scored, fun l mem same => ?_⟩
    simp only [tinyNet, List.mem_cons, List.not_mem_nil, or_false] at mem
    rcases mem with rfl | rfl | rfl | rfl | rfl
    · rfl
    all_goals cases same

theorem tiny_unshared (owner : w.owner = fun p => p) :
    (((w.layers (tinyNet batch w.id)).flatMap WorkerLayer.params).map w.owner).Nodup := by
  rw [tiny_layers, owner]
  simp [tinyNet]

theorem tiny_batch (batch : Batch samples) (ops : w.ops = FloatOps.real 0) (owner : w.owner = fun p => p) (pos : 0 < samples) :
    ∃ S', w.trainOneBatch (tinyNet batch w.id) (tinyState samples) = .ok S' ∧
      ∀ S, w.forward true (tinyNet batch w.id) (tinyState samples) = .ok S → ∀ l ∈ w.layers (tinyNet batch w.id),
        w.Smooth 0 (Fixed (w.layers (tinyNet batch w.id))) S l := by
  obtain ⟨S, forward, scores⟩ := tiny_forward batch ops owner pos
  obtain ⟨G, gradients⟩ := tiny_gradients ops owner pos scores
  have back : ∃ S', w.backward (tinyNet batch w.id) S = .ok S' := by
    rw [BPWorker.backward, backward_eq _ (tiny_unshared owner), tiny_layers, gradients]
    exact ⟨_, rfl⟩
  obtain ⟨S', back⟩ := back
  rw [← tiny_layers batch] at forward
  refine ⟨S', Run.do_ok.mpr ⟨S, forward, back⟩, fun S₁ ran => ?_⟩
  obtain rfl : S = S₁ := Except.ok.inj (forward.symm.trans ran)
  rw [tiny_layers]
  exact tiny_smooth scores

/-- The samples 1 and 2, of different classes. -/
def twoSamples : Batch (2 * 1) where
  labels := ⟨[2], [0, 1], rfl⟩
  numbers := rising [2, 1]
  labelShape := rfl
  numberShape := rfl
  classes := by simp

end Tiny

/-! ## One batch -/

/-- The updater subtracts the gradient. -/
noncomputable def descent (_ : ℕ) (b : ParamBlobs ℝ) : ParamBlobs ℝ :=
  (⟨b.1.shape, List.ofFn fun i : Fin b.1.shape.prod => b.1.dptr i - b.2.1.dptr i, List.length_ofFn⟩, b.2)

/-- **`TrainOneBatch` is one step of the updater from the old params with the exact gradient**, though the params are
updated while the gradients are still being computed: for every param there is a blob that has the partial derivatives of
the loss, and the updater has been given this blob, the old data and the old history. -/
theorem trainOneBatch_exact {w : BPWorker ℝ} {fltMin : ℝ} (real : ∀ i, (w.env i).math = FloatMath.real)
    (realOps : w.ops = FloatOps.real fltMin) {net : List (WorkerLayer ℝ)} {S₀ S' : NetState ℝ}
    (wired : Wired (w.layers net) S₀.grad) (unshared : (((w.layers net).flatMap WorkerLayer.params).map w.owner).Nodup)
    (run : w.trainOneBatch net S₀ = .ok S')
    (smooth : ∀ S, w.forward true net S₀ = .ok S → ∀ l ∈ w.layers net, w.Smooth fltMin (Fixed (w.layers net)) S l) :
    ∃ gradient : ℕ → LayerBlob ℝ,
      (∀ p ∈ (w.layers net).flatMap WorkerLayer.params,
        S'.param (w.owner p) = (w.update p (S₀.param (w.owner p), gradient p, S₀.history p)).1 ∧
        ∀ k < (S₀.param (w.owner p)).count, ∃ next : ℝ → NetState ℝ,
          (∀ x, w.forward true net (S₀.withParam (w.owner p) k x) = .ok (next x)) ∧
          HasDerivAt (fun x => lossSum (next x)) ((gradient p).dptr k) ((S₀.param (w.owner p)).dptr k)) ∧
      ∀ o ∉ ((w.layers net).flatMap WorkerLayer.params).map w.owner, S'.param o = S₀.param o := by
  obtain ⟨S, forward, backward⟩ := Run.do_ok.mp run
  rw [BPWorker.backward, backward_eq _ unshared] at backward
  cases computed : w.gradients (w.layers net) S with
  | error e =>
    rw [computed] at backward
    cases backward
  | ok G =>
    rw [computed] at backward
    have updated := Except.ok.inj backward
    obtain ⟨-, param, -, history, -⟩ := forward_frame forward
    have frame := gradients_frame computed
    have reversed : ((w.layers net).reverse.flatMap WorkerLayer.params).Perm ((w.layers net).flatMap WorkerLayer.params) :=
      (List.reverse_perm _).flatMap_right _
    obtain ⟨done, kept⟩ := updates_param ((reversed.map w.owner).nodup_iff.mpr unshared) G
    refine ⟨G.paramGrad, fun p mem => ⟨?_, fun k lt => ?_⟩, fun o other => ?_⟩
    · rw [← updated, done p (reversed.mem_iff.mpr mem), frame.param, param, frame.history, history]
    · obtain ⟨next, runs, derivative⟩ := gradient_is_derivative real realOps wired forward (smooth S forward) computed lt
      rw [gradientAt_unshared unshared mem] at derivative
      exact ⟨next, runs, derivative⟩
    · rw [← updated, kept o fun listed => other ((reversed.map w.owner).mem_iff.mp listed), frame.param, param]

/-- A batch of two samples, through two inner product layers, with the gradient subtracted from the data. -/
theorem trainOneBatch_exact_tiny : ∃ S' : NetState ℝ,
    (tinyWorker descent).trainOneBatch (tinyNet twoSamples 0) (tinyState 2) = .ok S' ∧
    ∃ gradient : ℕ → LayerBlob ℝ, ∀ p ∈ [0, 1, 2, 3],
      S'.param p = (descent p (rising (tinyShape p), gradient p, zeros (tinyShape p))).1 ∧
      ∀ k < (tinyShape p).prod, ∃ next : ℝ → NetState ℝ,
        (∀ x, (tinyWorker descent).forward true (tinyNet twoSamples 0) ((tinyState 2).withParam p k x) = .ok (next x)) ∧
        HasDerivAt (fun x => lossSum (next x)) ((gradient p).dptr k) ((rising (tinyShape p)).dptr k) := by
  have ops : (tinyWorker descent).ops = FloatOps.real 0 := rfl
  have owner : (tinyWorker descent).owner = fun p => p := rfl
  obtain ⟨S', run, smooth⟩ := tiny_batch twoSamples ops owner Nat.two_pos
  have real : ∀ i, ((tinyWorker descent).env i).math = FloatMath.real := fun _ => rfl
  have wired : Wired ((tinyWorker descent).layers (tinyNet twoSamples 0)) (tinyState 2).grad := tiny_wired 0
  obtain ⟨gradient, exact, -⟩ := trainOneBatch_exact real ops wired (tiny_unshared owner) run smooth
  exact ⟨S', run, gradient, exact⟩

theorem backward_served (served : ∀ p b, w.update p b = b) (layers : List (WorkerLayer α)) (S : NetState α) :
    layers.reverse.foldlM w.backwardLayer S = w.gradients layers S := by
  have same : w.backwardLayer = w.computeGradient := by
    funext S l
    have kept : ∀ S : NetState α, l.params.foldl w.updateParam S = S := by
      induction l.params with
      | nil => exact fun _ => rfl
      | cons p params ih =>
        intro S
        rw [List.foldl_cons, ih, updateParam, served]
        dsimp only
        rw [Function.update_eq_self, Function.update_eq_self, Function.update_eq_self]
    unfold backwardLayer
    simp only [kept]
    exact bind_pure _
  rw [same, BPWorker.gradients]

/-- **Where the servers update, the gradients that a batch leaves at the sharers of a param add up to the partial
derivatives of the loss**, and the params stay what they were. -/
theorem trainOneBatch_served {w : BPWorker ℝ} {fltMin : ℝ} (real : ∀ i, (w.env i).math = FloatMath.real)
    (realOps : w.ops = FloatOps.real fltMin) (served : ∀ p b, w.update p b = b) {net : List (WorkerLayer ℝ)} {S₀ S' : NetState ℝ}
    (wired : Wired (w.layers net) S₀.grad) (run : w.trainOneBatch net S₀ = .ok S')
    (smooth : ∀ S, w.forward true net S₀ = .ok S → ∀ l ∈ w.layers net, w.Smooth fltMin (Fixed (w.layers net)) S l) :
    S'.param = S₀.param ∧ ∀ o, ∀ k < (S₀.param o).count, ∃ next : ℝ → NetState ℝ,
      (∀ x, w.forward true net (S₀.withParam o k x) = .ok (next x)) ∧
      HasDerivAt (fun x => lossSum (next x)) (w.gradientAt net S' o k) ((S₀.param o).dptr k) := by
  obtain ⟨S, forward, backward⟩ := Run.do_ok.mp run
  rw [BPWorker.backward, backward_served served] at backward
  obtain ⟨-, param, -, -, -⟩ := forward_frame forward
  exact ⟨(gradients_frame backward).param.trans param,
    fun o k lt => gradient_is_derivative real realOps wired forward (smooth S forward) backward lt⟩

/-- The worker of a net with servers. -/
noncomputable abbrev servedWorker : BPWorker ℝ := tinyWorker fun _ b => b

/-- The same batch, with servers. -/
theorem trainOneBatch_served_tiny : ∃ S' : NetState ℝ,
    servedWorker.trainOneBatch (tinyNet twoSamples 0) (tinyState 2) = .ok S' ∧
    S'.param = (tinyState 2).param ∧ ∀ o, ∀ k < ((tinyState 2).param o).count, ∃ next : ℝ → NetState ℝ,
      (∀ x, servedWorker.forward true (tinyNet twoSamples 0) ((tinyState 2).withParam o k x) = .ok (next x)) ∧
      HasDerivAt (fun x => lossSum (next x)) (servedWorker.gradientAt (tinyNet twoSamples 0) S' o k)
        (((tinyState 2).param o).dptr k) := by
  have ops : servedWorker.ops = FloatOps.real 0 := rfl
  obtain ⟨S', run, smooth⟩ := tiny_batch twoSamples ops rfl Nat.two_pos
  have real : ∀ i, (servedWorker.env i).math = FloatMath.real := fun _ => rfl
  have wired : Wired (servedWorker.layers (tinyNet twoSamples 0)) (tinyState 2).grad := tiny_wired 0
  exact ⟨S', run, trainOneBatch_served real ops (fun _ _ => rfl) wired run smooth⟩

end BPWorker
end Singa
