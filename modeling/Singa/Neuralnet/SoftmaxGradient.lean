import Singa.Neuralnet.InnerProduct
import Singa.Neuralnet.SoftmaxLoss

/-!
# The gradient of `SoftmaxLossLayer`

What the layer adds to the metric is the mean of the negative logarithms of the
probabilities of the truth. What it writes into the gradient of its source, the
probabilities less one at the label, is the derivative of that number.
-/

namespace Singa
set_option autoImplicit false

open Finset Mshadow

/-- The functions that `float`s stand for; `FLT_MIN` is a parameter. -/
noncomputable def FloatOps.real (fltMin : ℝ) : FloatOps ℝ :=
  ⟨Real.exp, Real.log, fltMin, fun x => if 0 ≤ x then ⌊x⌋ else ⌈x⌉⟩

namespace SoftmaxLossLayer

variable {α : Type} [Field α] [LinearOrder α]

/-! ## The probabilities -/

omit [Field α] [LinearOrder α] in
/-- A list of rows of one length is read row by row. -/
theorem getD_rows [Zero α] {row : ℕ → List α} {width rows : ℕ} (size : ∀ n < rows, (row n).length = width) {n j : ℕ}
    (below : n < rows) (column : j < width) :
    ((List.range rows).flatMap row).getD (n * width + j) 0 = (row n).getD j 0 := by
  induction rows with
  | zero => exact absurd below (Nat.not_lt_zero n)
  | succ rows ih =>
    have whole : ((List.range rows).flatMap row).length = rows * width := by
      rw [List.length_flatMap, List.map_congr_left fun n mem => size n (by have := List.mem_range.mp mem; omega),
        List.map_const', List.sum_replicate, List.length_range, smul_eq_mul]
    rw [List.range_succ, List.flatMap_append]
    rcases Nat.lt_succ_iff_lt_or_eq.mp below with before | rfl
    · rw [List.getD_append _ _ _ _ (by rw [whole]; exact Grid.number_lt before column)]
      exact ih (fun n lt => size n (by omega)) before
    · rw [List.getD_append_right _ _ _ _ (by rw [whole]; exact Nat.le_add_right _ _), whole, Nat.add_sub_cancel_left]
      simp

theorem sum_map_eq (f : ℝ → ℝ) (l : List ℝ) : (l.map f).sum = ∑ k ∈ range l.length, f (l.getD k 0) := by
  induction l with
  | nil => rfl
  | cons x l ih =>
    rw [List.map_cons, List.sum_cons, List.length_cons, sum_range_succ', ih, add_comm]
    rfl

/-- A row of probabilities: the shares of the energies, exponentiated. -/
theorem softmaxRow_eq {fltMin : ℝ} {energy : List ℝ} {j : ℕ} (lt : j < energy.length) :
    (softmaxRow (FloatOps.real fltMin) energy).getD j 0 =
      Velocity.share (range energy.length) (fun k => energy.getD k 0) j := by
  obtain ⟨mmax, shift⟩ : ∃ mmax, softmaxRow (FloatOps.real fltMin) energy = (energy.map fun x => Real.exp (x - mmax)).map
      (· / (energy.map fun x => Real.exp (x - mmax)).foldl (· + ·) 0) := ⟨_, rfl⟩
  rw [shift, ← Velocity.share_shift _ _ mmax, Velocity.share, ← List.sum_eq_foldl,
    sum_map_eq fun x => Real.exp (x - mmax), List.map_map, List.getD_eq_getElem _ _ (by simpa using lt)]
  simp [lt]

/-- The probabilities of a sample that `predict` leaves in the data. -/
theorem predict_share {fltMin : ℝ} {layer layer' : SoftmaxLossLayer ℝ} {source : LayerBlob ℝ}
    (whole : layer.data.count = layer.batchsize * layer.dim) (same : source.count = layer.data.count)
    (run : layer.predict (FloatOps.real fltMin) source = .ok layer') {n j : ℕ} (sample : n < layer.batchsize) (column : j < layer.dim) :
    layer'.data.dptr (n * layer.dim + j) =
      Velocity.share (range layer.dim) (fun k => source.dptr (n * layer.dim + k)) j := by
  have energy : source.values.length = layer.batchsize * layer.dim := by rw [source.length_values, same, whole]
  obtain ⟨data, stored, shape, values⟩ :=
    LayerBlob.store_all whole.symm (length_softmax (FloatOps.real fltMin) energy).ge
  unfold predict at run
  obtain ⟨data', stored', run⟩ := Run.do_ok.mp run
  cases run
  cases stored.symm.trans stored'
  have rows : ∀ n < layer.batchsize, ((source.values.drop (n * layer.dim)).take layer.dim).length = layer.dim := by
    intro n below
    have : (n + 1) * layer.dim ≤ layer.batchsize * layer.dim := Nat.mul_le_mul_right _ below
    rw [Nat.succ_mul] at this
    rw [List.length_take, List.length_drop, energy]
    omega
  have entry : ∀ k < layer.dim, ((source.values.drop (n * layer.dim)).take layer.dim).getD k 0 =
      source.dptr (n * layer.dim + k) := by
    intro k lt
    rw [LayerBlob.dptr, List.getD_eq_getElem?_getD, List.getD_eq_getElem?_getD, List.getElem?_take_of_lt lt, List.getElem?_drop]
  rw [LayerBlob.dptr, values, List.take_of_length_le (length_softmax _ energy).le]
  refine (getD_rows (fun n below => ?_) sample column).trans ?_
  · rw [softmaxRow, List.length_map, List.length_map]
    exact rows n below
  · rw [softmaxRow_eq (by rw [rows n sample]; exact column), rows n sample]
    unfold Velocity.share
    dsimp only
    rw [entry j column, sum_congr rfl fun k mem => congrArg Real.exp (entry k (mem_range.mp mem))]

/-! ## The loss -/

omit [Field α] [LinearOrder α] in
/-- The two halves of a sequence that returned. -/
theorem bind_returned {β γ : Type} {m : Reads α β} {f : β → Reads α γ} {s : Unit → List α} {c : γ}
    (returned : ((m >>= f) s).result = .ok c) :
    ∃ b, (m s).result = .ok b ∧ (f b (m s).buffers).result = .ok c ∧ ((m >>= f) s).buffers = (f b (m s).buffers).buffers := by
  obtain ⟨b, first⟩ := Access.Prog.result_bind returned
  rw [Access.Prog.bind_ok first] at returned ⊢
  exact ⟨b, first, returned, rfl⟩

omit [Field α] [LinearOrder α] in
/-- A loop whose passes leave the buffers as they are. -/
theorem foldlM_value {γ δ β : Type} {f : γ → β → Reads α γ} (value : γ → δ) (step : δ → β → δ) {s : Unit → List α}
    {l : List β} (pass : ∀ b ∈ l, ∀ c r, (f c b s).result = .ok r → (f c b s).buffers = s ∧ value r = step (value c) b)
    {c r : γ} (returned : (l.foldlM f c s).result = .ok r) :
    (l.foldlM f c s).buffers = s ∧ value r = l.foldl step (value c) := by
  induction l generalizing c with
  | nil =>
    cases returned
    exact ⟨rfl, rfl⟩
  | cons b l ih =>
    rw [List.foldlM_cons] at returned ⊢
    cases first : (f c b s).result with
    | error e =>
      rw [Access.Prog.bind_error first] at returned
      cases returned
    | ok c' =>
      obtain ⟨kept, here⟩ := pass b List.mem_cons_self c c' first
      rw [Access.Prog.bind_ok first, kept] at returned ⊢
      rw [List.foldl_cons, ← here]
      exact ih (fun b mem => pass b (List.mem_cons_of_mem _ mem)) returned

omit [Field α] [LinearOrder α] in
theorem read_returned [Zero α] {tag index : ℕ} {s : Unit → List α} {a : α}
    (returned : ((Access.Prog.read .range tag () index : Reads α α) s).result = .ok a) : a = (s ()).getD index 0 := by
  unfold Access.Prog.read at returned
  dsimp only at returned
  rw [List.getD_eq_getElem?_getD]
  cases found : (s ())[index]? with
  | none =>
    rw [found] at returned
    cases returned
  | some b =>
    rw [found] at returned
    cases returned
    rfl

omit [Field α] in
/-- A sample that was scored: its probability of the truth. -/
theorem sample_value [Zero α] {ops : FloatOps α} {layer : SoftmaxLossLayer α} {n : ℕ} {label : α} {s : Unit → List α}
    {r : α × Bool} (returned : (layer.sample ops n label s).result = .ok r) :
    (layer.sample ops n label s).buffers = s ∧ r.1 = (s ()).getD (n * layer.dim + (ops.toInt label).toNat) 0 := by
  unfold sample at returned ⊢
  dsimp only at returned ⊢
  by_cases stops : 278 ≤ ops.toInt label ∨ ops.toInt label < 0
  · rw [if_pos stops] at returned
    cases returned
  · rw [if_neg stops] at returned ⊢
    obtain ⟨p, first, returned, buffers⟩ := bind_returned returned
    rw [buffers]
    have truth := read_returned first
    obtain ⟨probvec, loop, last, buffers⟩ := bind_returned returned
    rw [buffers]
    have reads : ∀ j ∈ List.range layer.dim, ∀ (probvec : List (α × ℕ)) (r : List (α × ℕ)),
        ((do
          let p ← Access.Prog.read .range n () (n * layer.dim + j)
          return probvec ++ [(p, j)] : Reads α (List (α × ℕ))) s).result = .ok r →
        ((do
          let p ← Access.Prog.read .range n () (n * layer.dim + j)
          return probvec ++ [(p, j)] : Reads α (List (α × ℕ))) s).buffers = s ∧ () = () := by
      intro j _ probvec r ran
      obtain ⟨p, -, -, buffers⟩ := bind_returned ran
      exact ⟨buffers, rfl⟩
    have kept := (foldlM_value (fun _ => ()) (fun _ _ => ()) reads loop).1
    split at last
    · cases last
    · next enough =>
      rw [if_neg enough]
      cases last
      exact ⟨kept, truth⟩

/-- What a sample adds to the loss. -/
def penalty (ops : FloatOps α) (layer : SoftmaxLossLayer α) (labels prob : LayerBlob α) (n : ℕ) : α :=
  ops.log (max (prob.dptr (n * layer.dim + (ops.toInt (labels.dptr n)).toNat)) ops.fltMin)

/-- **The loss that is added to the metric**, from the probabilities. -/
theorem score_value {ops : FloatOps α} {layer : SoftmaxLossLayer α} {labels : LayerBlob α} {loss accuracy : α}
    (returned : (layer.score ops labels fun _ => layer.data.values).result = .ok (loss, accuracy)) :
    loss = -(∑ n ∈ range layer.batchsize, layer.penalty ops labels layer.data n) * layer.scale / (1 * layer.batchsize) := by
  unfold score at returned
  obtain ⟨⟨sum, precision⟩, loop, last, -⟩ := bind_returned returned
  cases last
  have total : sum = (List.range layer.batchsize).foldl (fun l n => l - layer.penalty ops labels layer.data n) 0 := by
    refine (foldlM_value (fun c : α × α => c.1) (fun l n => l - layer.penalty ops labels layer.data n) ?_ loop).2
    intro n _ c r ran
    obtain ⟨label, there, ran, buffers⟩ := bind_returned ran
    rw [buffers]
    unfold labelAt at there ran ⊢
    cases found : labels.values[n]? with
    | none =>
      simp only [found] at there
      cases there
    | some label' =>
      simp only [found] at there ran ⊢
      cases there
      obtain ⟨⟨p, hit⟩, scored, ran, buffers⟩ := bind_returned ran
      rw [buffers]
      obtain ⟨kept, truth⟩ := sample_value scored
      cases ran
      refine ⟨kept, ?_⟩
      have here : labels.dptr n = label := by rw [LayerBlob.dptr, List.getD_eq_getElem?_getD, found, Option.getD_some]
      change p = layer.data.dptr (n * layer.dim + (ops.toInt label).toNat) at truth
      rw [penalty, here, ← truth]
  have sums : ∀ m, (List.range m).foldl (fun l n => l - layer.penalty ops labels layer.data n) 0 =
      -∑ n ∈ range m, layer.penalty ops labels layer.data n := by
    intro m
    induction m with
    | zero => simp
    | succ m ih =>
      rw [List.range_succ, List.foldl_append, ih, sum_range_succ]
      simp only [List.foldl_cons, List.foldl_nil]
      ring
  rw [total, sums]

/-- What `ComputeFeature` has done when it returns. -/
theorem computeFeature_returned {ops : FloatOps α} {layer layer' : SoftmaxLossLayer α} {source labels : LayerBlob α} {r : α × α}
    (returned : (layer.computeFeature ops source labels).result = .ok (layer', r)) :
    layer.predict ops source = .ok layer' ∧ (layer'.score ops labels fun _ => layer'.data.values).result = .ok r := by
  unfold computeFeature at returned
  cases predicted : layer.predict ops source with
  | error e =>
    rw [predicted] at returned
    cases returned
  | ok next =>
    rw [predicted] at returned
    obtain ⟨scored, run, last, -⟩ := bind_returned returned
    cases last
    exact ⟨rfl, run⟩

omit [LinearOrder α] in
/-- The gradient of the source, place by place. -/
theorem computeGradient_value {ops : FloatOps α} (layer : SoftmaxLossLayer α) {gsrc gsrc' labels : LayerBlob α}
    (shape : gsrc.shape = layer.data.shape) (whole : layer.data.count = layer.batchsize * layer.dim)
    (batch : labels.count = layer.batchsize)
    (labelled : ∀ label ∈ labels.values, 0 ≤ ops.toInt label ∧ ops.toInt label < layer.dim)
    (run : layer.computeGradient ops gsrc labels = .ok gsrc') :
    gsrc'.count = layer.batchsize * layer.dim ∧ ∀ n < layer.batchsize, ∀ k < layer.dim,
      gsrc'.dptr (n * layer.dim + k) = (layer.data.dptr (n * layer.dim + k) -
        if k = (ops.toInt (labels.dptr n)).toNat then 1 else 0) * (layer.scale / (1 * layer.batchsize)) := by
  unfold computeGradient at run
  rw [subtractLabels_eq ops layer shape whole batch labelled] at run
  cases run
  refine ⟨whole, fun n sample k column => ?_⟩
  have place : n * layer.dim + k < layer.data.values.length := by
    rw [layer.data.length_values, whole]
    exact row_within sample column
  unfold LayerBlob.dptr subtracted
  dsimp only
  rw [List.getD_eq_getElem _ _ (by simpa using place), List.getD_eq_getElem _ _ place, List.getElem_map, List.getElem_mapIdx,
    Grid.number_div column, Grid.number_mod column]
  by_cases here : k = (ops.toInt (labels.values.getD n 0)).toNat
  · rw [if_pos ⟨sample, here⟩, if_pos here]
  · rw [if_neg fun both => here both.2, if_neg here, sub_zero]

theorem predict_layer {ops : FloatOps α} {layer layer' : SoftmaxLossLayer α} {source : LayerBlob α}
    (run : layer.predict ops source = .ok layer') :
    ∃ data : LayerBlob α, data.shape = layer.data.shape ∧ layer' = { layer with data := data } := by
  unfold predict at run
  obtain ⟨data, stored, run⟩ := Run.do_ok.mp run
  cases run
  refine ⟨data, ?_, rfl⟩
  unfold LayerBlob.store at stored
  split at stored
  · cases stored
    rfl
  · cases stored

/-- The layer returns for every source of the right size, whatever its values are. -/
theorem computeFeature_total (ops : FloatOps α) {layer : SoftmaxLossLayer α} {source labels : LayerBlob α}
    (whole : layer.data.count = layer.batchsize * layer.dim) (same : source.count = layer.data.count)
    (top : layer.topk ≤ layer.dim) (batch : labels.count = layer.batchsize)
    (checks : ∀ label ∈ labels.values, 0 ≤ ops.toInt label ∧ ops.toInt label < 278)
    (below : ∀ label ∈ labels.values, ops.toInt label < layer.dim) :
    ∃ r, (layer.computeFeature ops source labels).result = .ok r := by
  have energy : source.values.length = layer.batchsize * layer.dim := by rw [source.length_values, same, whole]
  obtain ⟨data, stored, shape, -⟩ := LayerBlob.store_all whole.symm (length_softmax ops energy).ge
  have predicted : layer.predict ops source = .ok { layer with data := data } := Run.do_ok.mpr ⟨data, stored, rfl⟩
  unfold computeFeature
  rw [predicted]
  have ends := (({ layer with data := data } : SoftmaxLossLayer α).score_ends ops top batch checks below).bind
    fun r => .pure (({ layer with data := data } : SoftmaxLossLayer α), r)
  have sized : Access.Sized (fun _ => layer.batchsize * layer.dim) (fun _ : Unit => data.values) := fun _ => by
    rw [data.length_values, ← whole]
    exact congrArg List.prod shape
  exact (ends _ sized).1

/-! ## The derivative of the loss -/

/-- **The gradient of the softmax loss is its derivative**, where the probability of every truth is above `FLT_MIN`:
however the source moves, the loss that is added to the metric moves by the pairing with the gradient. -/
theorem backprop {fltMin t : ℝ} {layer : SoftmaxLossLayer ℝ} {source : ℝ → LayerBlob ℝ} {labels : LayerBlob ℝ}
    {layer' : ℝ → SoftmaxLossLayer ℝ} {loss accuracy : ℝ → ℝ} {dx : ℕ → ℝ}
    (whole : layer.data.count = layer.batchsize * layer.dim) (batch : labels.count = layer.batchsize)
    (labelled : ∀ label ∈ labels.values, 0 ≤ (FloatOps.real fltMin).toInt label ∧ (FloatOps.real fltMin).toInt label < layer.dim)
    (run : ∀ s, (layer.computeFeature (FloatOps.real fltMin) (source s) labels).result = .ok (layer' s, loss s, accuracy s))
    (same : ∀ s, (source s).count = layer.data.count) (moves : BlobMoves t source dx)
    (likely : ∀ n < layer.batchsize,
      fltMin < (layer' t).data.dptr (n * layer.dim + ((FloatOps.real fltMin).toInt (labels.dptr n)).toNat)) :
    ∃ dl, HasDerivAt loss dl t ∧ ∀ gsrc gsrc' : LayerBlob ℝ, gsrc.shape = layer.data.shape →
      (layer' t).computeGradient (FloatOps.real fltMin) gsrc labels = .ok gsrc' →
      dl = Pairing.pairing gsrc'.count gsrc'.dptr dx := by
  set truth : ℕ → ℕ := fun n => ((FloatOps.real fltMin).toInt (labels.dptr n)).toNat with truth_eq
  have below : ∀ n < layer.batchsize, truth n < layer.dim := by
    intro n sample
    have listed : labels.dptr n ∈ labels.values := by
      have bound : n < labels.values.length := by rw [labels.length_values, batch]; exact sample
      rw [LayerBlob.dptr, List.getD_eq_getElem _ _ bound]
      exact List.getElem_mem bound
    obtain ⟨nonneg, lt⟩ := labelled _ listed
    show Int.toNat _ < _
    omega
  have prob : ∀ s, ∀ n < layer.batchsize, ∀ j < layer.dim, (layer' s).data.dptr (n * layer.dim + j) =
      Velocity.share (range layer.dim) (fun k => (source s).dptr (n * layer.dim + k)) j :=
    fun s n sample j column => predict_share whole (same s) (computeFeature_returned (run s)).1 sample column
  have value : ∀ s, loss s = -(∑ n ∈ range layer.batchsize, Real.log (max (Velocity.share (range layer.dim)
      (fun k => (source s).dptr (n * layer.dim + k)) (truth n)) fltMin)) * layer.scale / (1 * layer.batchsize) := by
    intro s
    obtain ⟨predicted, scored⟩ := computeFeature_returned (run s)
    have total := score_value scored
    obtain ⟨data, -, here⟩ := predict_layer predicted
    have probs := prob s
    rw [here] at total probs
    rw [total]
    congr 3
    refine sum_congr rfl fun n sample => ?_
    rw [penalty]
    have sample := mem_range.mp sample
    rw [← probs n sample (truth n) (below n sample)]
    rfl
  have derivative : ∀ n ∈ range layer.batchsize, HasDerivAt (fun s => Real.log (max (Velocity.share (range layer.dim)
      (fun k => (source s).dptr (n * layer.dim + k)) (truth n)) fltMin)) (dx (n * layer.dim + truth n) -
        ∑ k ∈ range layer.dim, (layer' t).data.dptr (n * layer.dim + k) * dx (n * layer.dim + k)) t := by
    intro n sample
    have sample := mem_range.mp sample
    have row : Velocity.Moves t (fun s k => (source s).dptr (n * layer.dim + k)) fun k => dx (n * layer.dim + k) :=
      moves.at fun k => n * layer.dim + k
    have mem : truth n ∈ range layer.dim := mem_range.mpr (below n sample)
    have above := likely n sample
    rw [prob t n sample (truth n) (below n sample)] at above
    rw [sum_congr rfl fun k column => by rw [prob t n sample k (mem_range.mp column)]]
    refine (row.log_share mem).congr_of_eventuallyEq ?_
    filter_upwards [continuousAt_const.eventually_lt (row.share mem).continuousAt above] with s above
    rw [max_eq_left above.le]
  have total := ((HasDerivAt.fun_sum derivative).neg.mul_const layer.scale).div_const (1 * (layer.batchsize : ℝ))
  rw [show loss = _ from funext value]
  refine ⟨_, total, fun gsrc gsrc' shape back => ?_⟩
  obtain ⟨data, data_shape, here⟩ := predict_layer (computeFeature_returned (run t)).1
  rw [here] at back
  obtain ⟨size, filled⟩ := computeGradient_value { layer with data := data } (shape.trans data_shape.symm)
    ((congrArg List.prod data_shape).trans whole) batch labelled back
  rw [here]
  have pairs : ∀ n ∈ range layer.batchsize, Pairing.pairing layer.dim (fun k => gsrc'.dptr (n * layer.dim + k))
      (fun k => dx (n * layer.dim + k)) = -(dx (n * layer.dim + truth n) - ∑ k ∈ range layer.dim,
        data.dptr (n * layer.dim + k) * dx (n * layer.dim + k)) * (layer.scale / (1 * layer.batchsize)) := by
    intro n sample
    have sample := mem_range.mp sample
    unfold Pairing.pairing
    calc _ = ∑ k ∈ range layer.dim, (data.dptr (n * layer.dim + k) * dx (n * layer.dim + k) -
          if k = truth n then dx (n * layer.dim + k) else 0) * (layer.scale / (1 * layer.batchsize)) := by
          refine sum_congr rfl fun k column => ?_
          have entry := filled n sample k (mem_range.mp column)
          dsimp only at entry ⊢
          rw [entry]
          split <;> ring
      _ = _ := by
          rw [← sum_mul, sum_sub_distrib, sum_ite_eq' (range layer.dim) (truth n), if_pos (mem_range.mpr (below n sample))]
          ring
  rw [show gsrc'.count = layer.batchsize * layer.dim from size, Pairing.pairing_grid, sum_congr rfl pairs, ← sum_mul,
    sum_neg_distrib]
  ring

end SoftmaxLossLayer
end Singa
