import Singa.Neuralnet.Convolution
import Singa.Neuralnet.LRN
import Singa.Neuralnet.Pooling

/-!
# Neuron layers

The layers of one source between the input and the loss: what `ComputeFeature`
and `ComputeGradient` do is dispatched on the kind of the layer. The gradients
are the transpose of the derivative, whichever kind it is.
-/

namespace Singa
set_option autoImplicit false

open Mshadow

variable {α : Type}

inductive NeuronLayer (α : Type) where
  | convolution (layer : ConvolutionLayer)
  | dropout (pdrop : α)
  | innerProduct (layer : InnerProductLayer)
  | lrn (layer : LRNLayer α)
  | pooling (layer : PoolingLayer)
  | relu
  | tanh

/-- What the layers need of `float`s: functions, `FLT_MAX`, and the numbers that `Random` draws. -/
structure FloatEnv (α : Type) where
  math : FloatMath α
  fltMax : α
  uniform : ℕ → α

/-- `Blob` pointers that must not be null. -/
def deref (b : Option (LayerBlob α)) : Run (LayerBlob α) :=
  match b with
  | none => .error .nullPointer
  | some b => .ok b

theorem deref_ok {b : Option (LayerBlob α)} {g : LayerBlob α} : deref b = .ok g ↔ b = some g := by
  cases b <;> simp [deref]

namespace NeuronLayer

/-- The blob of its own that a layer writes in `ComputeFeature` and reads in `ComputeGradient`: `mask_` or `norm_`. -/
abbrev Own (α : Type) := LayerBlob α

variable [Field α] [LinearOrder α] (env : FloatEnv α) (layer : NeuronLayer α)

/-- `ComputeFeature`: the blob of its own and the data. `params` are those of `GetParams`. -/
def computeFeature (train : Bool) (params : List (LayerBlob α)) (own src data : LayerBlob α) : Run (Own α × LayerBlob α) :=
  match layer, params with
  | convolution layer, [weight, bias] => (own, ·) <$> layer.computeFeature weight bias src data
  | innerProduct layer, [weight, bias] => (own, ·) <$> layer.computeFeature weight bias src data
  | dropout pdrop, [] => DropoutLayer.computeFeature pdrop train env.uniform own src data
  | lrn layer, [] => layer.computeFeature env.math own src data
  | pooling layer, [] => (own, ·) <$> layer.computeFeature env.fltMax src data
  | relu, [] => (own, ·) <$> ReLULayer.computeFeature src data
  | tanh, [] => (own, ·) <$> TanhLayer.computeFeature env.math src data
  | _, _ => .error .range

/-- `ComputeGradient`: the gradients of the params, and of the source if it has one. -/
def computeGradient (params : List (LayerBlob α)) (own src data grad : LayerBlob α) (gparams : List (LayerBlob α))
    (gsrc : Option (LayerBlob α)) : Run (List (LayerBlob α) × Option (LayerBlob α)) :=
  match layer, params, gparams with
  | convolution layer, [weight, bias], [gweight, gbias] => do
    let (gweight, gbias, gsrc) ← layer.computeGradient weight bias src grad gweight gbias gsrc
    return ([gweight, gbias], gsrc)
  | innerProduct layer, [weight, bias], [gweight, gbias] => do
    let (gweight, gbias, gsrc) ← layer.computeGradient weight bias src grad gweight gbias gsrc
    return ([gweight, gbias], gsrc)
  | dropout _, [], [] => do return ([], some (← DropoutLayer.computeGradient own grad (← deref gsrc)))
  | lrn layer, [], [] => do return ([], some (← layer.computeGradient env.math own src grad gsrc))
  | pooling layer, [], [] => do return ([], some (← layer.computeGradient env.fltMax src data grad gsrc))
  | relu, [], [] => do return ([], some (← ReLULayer.computeGradient data grad (← deref gsrc)))
  | tanh, [], [] => do return ([], some (← TanhLayer.computeGradient data grad (← deref gsrc)))
  | _, _, _ => .error .range

/-- Where the layer has a derivative: a rectifier away from zero, a maximum at a peak, a normalizer that is positive. -/
def Smooth (fltMax : ℝ) (layer : NeuronLayer ℝ) (src : LayerBlob ℝ) : Prop :=
  match layer with
  | relu => ∀ k < src.count, src.dptr k ≠ 0
  | pooling layer => layer.pool = .max → layer.Peaks fltMax (src.tensor layer.width)
  | lrn layer => 0 < layer.knorm ∧ 0 ≤ layer.alpha
  | _ => True

/-- The pairing of the gradients of params with their velocities. -/
def pairedParams (gparams : List (LayerBlob ℝ)) (dparams : List (ℕ → ℝ)) : ℝ :=
  (List.zipWith (fun g d => Pairing.pairing g.count g.dptr d) gparams dparams).sum

/-- There is a gradient for each of the params, and for a source that has one. -/
theorem computeGradient_ok {env : FloatEnv α} {layer : NeuronLayer α} {params gparams gparams' : List (LayerBlob α)}
    {own src data grad : LayerBlob α} {gsrc gsrc' : Option (LayerBlob α)}
    (run : layer.computeGradient env params own src data grad gparams gsrc = .ok (gparams', gsrc')) :
    gparams'.length = params.length ∧ (gsrc' = none ↔ gsrc = none) := by
  unfold computeGradient at run
  split at run
  · obtain ⟨⟨gweight, gbias, g⟩, ran, last⟩ := Run.do_ok.mp run
    cases last
    exact ⟨rfl, (ConvolutionLayer.computeGradient_ok _ ran).2.2.2.2.2.1⟩
  · obtain ⟨⟨gweight, gbias, g⟩, ran, last⟩ := Run.do_ok.mp run
    cases last
    exact ⟨rfl, (InnerProductLayer.computeGradient_ok _ ran).2.2.2.2.1⟩
  · obtain ⟨g, there, run⟩ := Run.do_ok.mp run
    obtain ⟨g', -, last⟩ := Run.do_ok.mp run
    cases last
    simp [deref_ok.mp there]
  · obtain ⟨g, ran, last⟩ := Run.do_ok.mp run
    cases last
    cases gsrc with
    | none => cases ran
    | some g => simp
  · obtain ⟨g, ran, last⟩ := Run.do_ok.mp run
    cases last
    cases gsrc with
    | none => cases ran
    | some g => simp
  · obtain ⟨g, there, run⟩ := Run.do_ok.mp run
    obtain ⟨g', -, last⟩ := Run.do_ok.mp run
    cases last
    simp [deref_ok.mp there]
  · obtain ⟨g, there, run⟩ := Run.do_ok.mp run
    obtain ⟨g', -, last⟩ := Run.do_ok.mp run
    cases last
    simp [deref_ok.mp there]
  · cases run

/-- The gradients of the params keep their sizes. -/
theorem computeGradient_counts {env : FloatEnv α} {layer : NeuronLayer α} {params gparams gparams' : List (LayerBlob α)}
    {own src data grad : LayerBlob α} {gsrc gsrc' : Option (LayerBlob α)}
    (run : layer.computeGradient env params own src data grad gparams gsrc = .ok (gparams', gsrc')) :
    gparams'.map LayerBlob.count = gparams.map LayerBlob.count := by
  unfold computeGradient at run
  split at run
  · next layer weight bias gweight gbias =>
    obtain ⟨⟨gweight', gbias', g⟩, ran, last⟩ := Run.do_ok.mp run
    cases last
    obtain ⟨fits, whole, wide, -⟩ := ConvolutionLayer.computeGradient_ok _ ran
    obtain ⟨-, sizeWeight, sizeBias, -⟩ := fits
    unfold ConvolutionLayer.computeGradient at ran
    split at ran
    · next same => simp [whole, wide, same.2.1, same.2.2.1, sizeWeight, sizeBias]
    · cases ran
  · next layer weight bias gweight gbias =>
    obtain ⟨⟨gweight', gbias', g⟩, ran, last⟩ := Run.do_ok.mp run
    cases last
    unfold InnerProductLayer.computeGradient at ran
    split at ran
    · cases ran
      rfl
    · cases ran
  · obtain ⟨g, -, run⟩ := Run.do_ok.mp run
    obtain ⟨g', -, last⟩ := Run.do_ok.mp run
    cases last
    rfl
  · obtain ⟨g, -, last⟩ := Run.do_ok.mp run
    cases last
    rfl
  · obtain ⟨g, -, last⟩ := Run.do_ok.mp run
    cases last
    rfl
  · obtain ⟨g, -, run⟩ := Run.do_ok.mp run
    obtain ⟨g', -, last⟩ := Run.do_ok.mp run
    cases last
    rfl
  · obtain ⟨g, -, run⟩ := Run.do_ok.mp run
    obtain ⟨g', -, last⟩ := Run.do_ok.mp run
    cases last
    rfl
  · cases run

omit [Field α] [LinearOrder α] in
theorem map_own_ok {own own' : LayerBlob α} {x : Run (LayerBlob α)} {data : LayerBlob α} :
    (own, ·) <$> x = .ok (own', data) ↔ own' = own ∧ x = .ok data := by
  cases x with
  | error e => simp [Functor.map, Except.map]
  | ok b => simp [Functor.map, Except.map, eq_comm]

omit [Field α] [LinearOrder α] in
theorem shape_copyFrom {b source b' : LayerBlob α} (run : b.copyFrom source = .ok b') : b'.shape = b.shape := by
  unfold LayerBlob.copyFrom at run
  obtain ⟨equal, -, run⟩ := Run.do_ok.mp run
  split at run
  · unfold LayerBlob.store at run
    split at run
    · cases run
      rfl
    · cases run
  · cases run

/-- The data keep their shape. -/
theorem computeFeature_shape {env : FloatEnv α} {layer : NeuronLayer α} {train : Bool} {params : List (LayerBlob α)}
    {own src data own' feature : LayerBlob α}
    (run : layer.computeFeature env train params own src data = .ok (own', feature)) : feature.shape = data.shape := by
  unfold computeFeature at run
  split at run
  · exact (ConvolutionLayer.computeFeature_ok _ (map_own_ok.mp run).2).2.1
  · exact (InnerProductLayer.computeFeature_ok _ (map_own_ok.mp run).2).2.1
  · unfold DropoutLayer.computeFeature at run
    split at run
    · dsimp only at run
      split at run
      · cases run
        rfl
      · cases run
    · obtain ⟨data', copied, last⟩ := Run.do_ok.mp run
      cases last
      exact shape_copyFrom copied
  · exact (LRNLayer.computeFeature_ok _ _ run).2.1
  · exact (PoolingLayer.computeFeature_ok _ _ (map_own_ok.mp run).2).2.1
  · exact (mapInto_ok (map_own_ok.mp run).2).2.1
  · exact (mapInto_ok (map_own_ok.mp run).2).2.1
  · cases run

omit [Field α] [LinearOrder α] in
theorem count_alike {b b' : LayerBlob α} (same : b.shape = b'.shape) : b.count = b'.count := congrArg List.prod same

omit [Field α] [LinearOrder α] in
theorem map_own_alike {own o f own' : LayerBlob α} {x x' : Run (LayerBlob α)} (run : (own, ·) <$> x = .ok (o, f))
    (alike : x = .ok f → ∃ f', x' = .ok f') : o.shape = own.shape ∧ ∃ o' f', (own', ·) <$> x' = .ok (o', f') := by
  obtain ⟨rfl, made⟩ := map_own_ok.mp run
  obtain ⟨f', made'⟩ := alike made
  exact ⟨rfl, own', f', map_own_ok.mpr ⟨rfl, made'⟩⟩

omit [Field α] [LinearOrder α] in
/-- Whether elements are mapped is a matter of their number. -/
theorem mapInto_alike [Zero α] {op op' : α → α} {src src' data data' f : LayerBlob α} (sameSrc : src.shape = src'.shape)
    (sameData : data.shape = data'.shape) (run : mapInto op src data = .ok f) : ∃ f', mapInto op' src' data' = .ok f' := by
  have size := (mapInto_ok run).1
  rw [count_alike sameSrc, count_alike sameData] at size
  exact ⟨_, if_pos size⟩

/-- **Whether a layer stops is a matter of shapes only**, while training; and the blob of its own keeps its shape. -/
theorem computeFeature_alike {env : FloatEnv α} {layer : NeuronLayer α} {params params' : List (LayerBlob α)}
    {own own' src src' data data' o f : LayerBlob α}
    (sameParams : List.Forall₂ (fun b b' => b.shape = b'.shape) params params') (sameOwn : own.shape = own'.shape)
    (sameSrc : src.shape = src'.shape) (sameData : data.shape = data'.shape)
    (run : layer.computeFeature env true params own src data = .ok (o, f)) :
    o.shape = own.shape ∧ ∃ o' f', layer.computeFeature env true params' own' src' data' = .ok (o', f') := by
  unfold computeFeature at run
  split at run
  · next layer weight bias =>
    obtain ⟨weight', _, sameWeight, rest, rfl⟩ := List.forall₂_cons_left_iff.mp sameParams
    obtain ⟨bias', _, sameBias, last, rfl⟩ := List.forall₂_cons_left_iff.mp rest
    obtain rfl := List.forall₂_nil_left_iff.mp last
    refine map_own_alike run fun made => ?_
    obtain ⟨shape, sizeWeight, sizeBias, size, fits⟩ := (layer.computeFeature_ok made).1
    rw [count_alike sameWeight] at sizeWeight
    rw [count_alike sameBias] at sizeBias
    rw [count_alike sameData] at size
    exact ⟨_, if_pos ⟨sameSrc ▸ shape, sizeWeight, sizeBias, size, fits⟩⟩
  · next layer weight bias =>
    obtain ⟨weight', _, sameWeight, rest, rfl⟩ := List.forall₂_cons_left_iff.mp sameParams
    obtain ⟨bias', _, sameBias, last, rfl⟩ := List.forall₂_cons_left_iff.mp rest
    obtain rfl := List.forall₂_nil_left_iff.mp last
    refine map_own_alike run fun made => ?_
    obtain ⟨sizeSrc, sizeWeight, sizeBias, size, pos⟩ := (layer.computeFeature_ok made).1
    rw [count_alike sameSrc] at sizeSrc
    rw [count_alike sameWeight] at sizeWeight
    rw [count_alike sameBias] at sizeBias
    rw [count_alike sameData] at size
    exact ⟨_, if_pos ⟨sizeSrc, sizeWeight, sizeBias, size, pos⟩⟩
  · next pdrop =>
    obtain rfl := List.forall₂_nil_left_iff.mp sameParams
    unfold DropoutLayer.computeFeature at run
    rw [if_pos rfl] at run
    dsimp only at run
    split at run
    · next sizes =>
      cases run
      rw [LayerBlob.count_save, count_alike sameSrc, count_alike sameData, count_alike sameOwn] at sizes
      have total : ∃ o' f', DropoutLayer.computeFeature pdrop true env.uniform own' src' data' = .ok (o', f') := by
        unfold DropoutLayer.computeFeature
        rw [if_pos rfl]
        exact ⟨_, _, if_pos sizes⟩
      exact ⟨rfl, total⟩
    · cases run
  · next layer =>
    obtain rfl := List.forall₂_nil_left_iff.mp sameParams
    obtain ⟨shape, sameSize, norms, odd⟩ := (layer.computeFeature_ok _ run).1
    unfold LRNLayer.computeFeature at run
    split at run
    · cases run
      rw [sameSrc] at shape sameSize norms
      exact ⟨rfl, _, _, if_pos ⟨shape, sameData ▸ sameSize, sameOwn ▸ norms, odd⟩⟩
    · cases run
  · next layer =>
    obtain rfl := List.forall₂_nil_left_iff.mp sameParams
    refine map_own_alike run fun made => ?_
    obtain ⟨shape, size, fits⟩ := (layer.computeFeature_ok _ made).1
    exact ⟨_, if_pos ⟨sameSrc ▸ shape, sameData ▸ size, fits⟩⟩
  · obtain rfl := List.forall₂_nil_left_iff.mp sameParams
    exact map_own_alike run (mapInto_alike sameSrc sameData)
  · obtain rfl := List.forall₂_nil_left_iff.mp sameParams
    exact map_own_alike run (mapInto_alike sameSrc sameData)
  · cases run

section Backprop

variable {t : ℝ} {src feature : ℝ → LayerBlob ℝ} {dx dy : ℕ → ℝ}

/-- The transpose of a layer with weight and bias, from that of its own `ComputeGradient`. -/
theorem pairing_two {G : LayerBlob ℝ → LayerBlob ℝ → Option (LayerBlob ℝ) → Run (LayerBlob ℝ × LayerBlob ℝ × Option (LayerBlob ℝ))}
    {grad : LayerBlob ℝ} {dw db : ℕ → ℝ}
    (transposed : ∀ (gweight gbias : LayerBlob ℝ) (gsrc : Option (LayerBlob ℝ)) (gweight' gbias' : LayerBlob ℝ)
      (gsrc' : Option (LayerBlob ℝ)), G gweight gbias gsrc = .ok (gweight', gbias', gsrc') → (gsrc = none → dx = fun _ => 0) →
      Pairing.pairing grad.count grad.dptr dy = paired gsrc' dx + Pairing.pairing gweight'.count gweight'.dptr dw +
        Pairing.pairing gbias'.count gbias'.dptr db)
    {gweight gbias : LayerBlob ℝ} {gparams' : List (LayerBlob ℝ)} {gsrc gsrc' : Option (LayerBlob ℝ)}
    (back : (do
      let (gweight, gbias, gsrc) ← G gweight gbias gsrc
      return ([gweight, gbias], gsrc) : Run (List (LayerBlob ℝ) × Option (LayerBlob ℝ))) = .ok (gparams', gsrc'))
    (still : gsrc = none → dx = fun _ => 0) :
    Pairing.pairing grad.count grad.dptr dy = paired gsrc' dx + pairedParams gparams' [dw, db] := by
  obtain ⟨⟨gweight', gbias', gsrc''⟩, ran, last⟩ := Run.do_ok.mp back
  cases last
  rw [transposed _ _ _ _ _ _ ran still]
  simp [pairedParams, add_assoc]

/-- The transpose of a layer without params. -/
theorem pairing_none {x : Run (LayerBlob ℝ)} {grad : LayerBlob ℝ}
    (transposed : ∀ gsrc', x = .ok gsrc' → Pairing.pairing grad.count grad.dptr dy = Pairing.pairing gsrc'.count gsrc'.dptr dx)
    {gparams' : List (LayerBlob ℝ)} {gsrc' : Option (LayerBlob ℝ)}
    (back : (do return ([], some (← x)) : Run (List (LayerBlob ℝ) × Option (LayerBlob ℝ))) = .ok (gparams', gsrc')) :
    Pairing.pairing grad.count grad.dptr dy = paired gsrc' dx + pairedParams gparams' [] := by
  obtain ⟨g, ran, last⟩ := Run.do_ok.mp back
  cases last
  rw [transposed g ran]
  simp [pairedParams, paired]

end Backprop

/-- **The gradients of a layer are the transpose of its derivative.** -/
theorem backprop {env : FloatEnv ℝ} (real : env.math = FloatMath.real) (layer : NeuronLayer ℝ) {t : ℝ}
    {params : List (ℝ → LayerBlob ℝ)} {dparams : List (ℕ → ℝ)} {own data : LayerBlob ℝ} {src own' feature : ℝ → LayerBlob ℝ}
    {dx : ℕ → ℝ}
    (run : ∀ s, layer.computeFeature env true (params.map fun p => p s) own (src s) data = .ok (own' s, feature s))
    (movesParams : List.Forall₂ (BlobMoves t) params dparams) (movesSrc : BlobMoves t src dx) (smooth : layer.Smooth env.fltMax (src t)) :
    ∃ dy, BlobMoves t feature dy ∧ ∀ (grad : LayerBlob ℝ) (gparams gparams' : List (LayerBlob ℝ)) (gsrc gsrc' : Option (LayerBlob ℝ)),
      layer.computeGradient env (params.map fun p => p t) (own' t) (src t) (feature t) grad gparams gsrc = .ok (gparams', gsrc') →
      (gsrc = none → dx = fun _ => 0) →
      Pairing.pairing grad.count grad.dptr dy = paired gsrc' dx + pairedParams gparams' dparams := by
  obtain ⟨math, fltMax, uniform⟩ := env
  obtain rfl : math = FloatMath.real := real
  cases layer with
  | convolution layer =>
    rcases movesParams with _ | ⟨movesWeight, _ | ⟨movesBias, _ | _⟩⟩
    case cons.cons.nil =>
      obtain ⟨dy, moves, transposed⟩ := layer.backprop (fun s => (map_own_ok.mp (run s)).2) movesWeight movesBias movesSrc
      refine ⟨dy, moves, fun grad gparams gparams' gsrc gsrc' back still => ?_⟩
      rcases gparams with _ | ⟨gweight, _ | ⟨gbias, _ | _⟩⟩
      case cons.cons.nil => exact pairing_two (transposed grad) back still
      all_goals cases back
    all_goals cases run t
  | innerProduct layer =>
    rcases movesParams with _ | ⟨movesWeight, _ | ⟨movesBias, _ | _⟩⟩
    case cons.cons.nil =>
      obtain ⟨dy, moves, transposed⟩ := layer.backprop (fun s => (map_own_ok.mp (run s)).2) movesWeight movesBias movesSrc
      refine ⟨dy, moves, fun grad gparams gparams' gsrc gsrc' back still => ?_⟩
      rcases gparams with _ | ⟨gweight, _ | ⟨gbias, _ | _⟩⟩
      case cons.cons.nil => exact pairing_two (transposed grad) back still
      all_goals cases back
    all_goals cases run t
  | dropout pdrop =>
    cases movesParams with
    | cons => cases run t
    | nil =>
      obtain ⟨dy, moves, transposed⟩ := DropoutLayer.backprop run movesSrc
      refine ⟨dy, moves, fun grad gparams gparams' gsrc gsrc' back _ => ?_⟩
      cases gparams with
      | cons => cases back
      | nil =>
        cases gsrc with
        | none => cases back
        | some g => exact pairing_none (transposed grad g) back
  | lrn layer =>
    cases movesParams with
    | cons => cases run t
    | nil =>
      obtain ⟨dy, moves, transposed⟩ := LRNLayer.backprop smooth.1 smooth.2 run movesSrc
      refine ⟨dy, moves, fun grad gparams gparams' gsrc gsrc' back _ => ?_⟩
      cases gparams with
      | cons => cases back
      | nil =>
        exact pairing_none (transposed grad gsrc) back
  | pooling layer =>
    cases movesParams with
    | cons => cases run t
    | nil =>
      obtain ⟨dy, moves, transposed⟩ := layer.backprop fltMax (fun s => (map_own_ok.mp (run s)).2) movesSrc smooth
      refine ⟨dy, moves, fun grad gparams gparams' gsrc gsrc' back _ => ?_⟩
      cases gparams with
      | cons => cases back
      | nil =>
        exact pairing_none (transposed grad gsrc) back
  | relu =>
    cases movesParams with
    | cons => cases run t
    | nil =>
      obtain ⟨dy, moves, transposed⟩ := ReLULayer.backprop (fun s => (map_own_ok.mp (run s)).2) movesSrc smooth
      refine ⟨dy, moves, fun grad gparams gparams' gsrc gsrc' back _ => ?_⟩
      cases gparams with
      | cons => cases back
      | nil =>
        cases gsrc with
        | none => cases back
        | some g => exact pairing_none (transposed grad g) back
  | tanh =>
    cases movesParams with
    | cons => cases run t
    | nil =>
      obtain ⟨dy, moves, transposed⟩ := TanhLayer.backprop (fun s => (map_own_ok.mp (run s)).2) movesSrc
      refine ⟨dy, moves, fun grad gparams gparams' gsrc gsrc' back _ => ?_⟩
      cases gparams with
      | cons => cases back
      | nil =>
        cases gsrc with
        | none => cases back
        | some g => exact pairing_none (transposed grad g) back

end NeuronLayer
end Singa
