import Singa.Base.Access
import Singa.Neuralnet.LayerBlob

/-!
# `SoftmaxLossLayer`

The layer scores every sample of the batch by its row of the probabilities. A
row is addressed by pointer arithmetic with the label, and the range of labels
that the `CHECK`s accept is a constant that has nothing to do with the length of
a row. The accesses to the probabilities are recorded with the sample they are
made for.
-/

namespace Singa
set_option autoImplicit false

variable {α : Type}

/-- Functions of `float`s: `std::exp`, `log`, `FLT_MIN` and `static_cast<int>`. -/
structure FloatOps (α : Type) where
  exp : α → α
  log : α → α
  fltMin : α
  toInt : α → Int

/-- `LabelLayer::ParseRecords`: the labels of the records, from place `rid` on. -/
def LabelLayer.parseRecords [IntCast α] : Nat → List Int → LayerBlob α → Run (LayerBlob α)
  | rid, [], blob =>
    match blob.shape with
    | [] => .error .range
    | d :: _ => if rid = d then .ok blob else .error .recordCount
  | rid, label :: records, blob => do
    let blob ← blob.modifyAt rid fun _ => (label : α)
    if label < 278 then parseRecords (rid + 1) records blob else .error .label

structure SoftmaxLossLayer (α : Type) where
  batchsize : Nat
  dim : Nat
  topk : Nat
  scale : α
  data : LayerBlob α

/-- The element `n` of a label blob. -/
def labelAt (labels : LayerBlob α) (n : Nat) : Run α :=
  match labels.values[n]? with
  | none => .error .range
  | some label => .ok label

namespace SoftmaxLossLayer

variable [Field α] [LinearOrder α]

/-- `Softmax` of `mshadow`, for one row. -/
def softmaxRow (ops : FloatOps α) (energy : List α) : List α :=
  let mmax := energy.tail.foldl (fun mmax x => if mmax < x then x else mmax) (energy.headD 0)
  let dst := energy.map fun x => ops.exp (x - mmax)
  let sum := dst.foldl (· + ·) 0
  dst.map (· / sum)

/-- `Softmax` of `mshadow`, for a matrix. -/
def softmax (ops : FloatOps α) (batchsize dim : Nat) (energy : List α) : List α :=
  (List.range batchsize).flatMap fun y => softmaxRow ops ((energy.drop (y * dim)).take dim)

/-- `SoftmaxLossLayer::Setup`. -/
def setup (topk : Nat) (scale : α) (srclayers : List (LayerBlob α)) : Run (SoftmaxLossLayer α) :=
  match srclayers with
  | [source, _] => do
    let data ← LayerBlob.fresh source.shape
    match data.shape with
    | [] => .error .range
    | batchsize :: _ => return ⟨batchsize, data.count / batchsize, topk, scale, data⟩
  | _ => .error .srcLayers

/-- `std::greater` on pairs, as a total order. -/
def Before (a b : α × Nat) : Prop := b.1 < a.1 ∨ b.1 = a.1 ∧ b.2 ≤ a.2

instance : DecidableRel (Before (α := α)) := fun a b => inferInstanceAs (Decidable (b.1 < a.1 ∨ b.1 = a.1 ∧ b.2 ≤ a.2))

/-- A program that reads the probabilities, for the sample that the tag says. -/
abbrev Reads (α : Type) := Access.Prog Abort Unit Nat α

/-- One pass of the loop of `ComputeFeature`: the probability of the truth, and whether the truth is in
the top k. `probptr` has moved by `dim` for every sample before. -/
def sample (ops : FloatOps α) (layer : SoftmaxLossLayer α) (n : Nat) (label : α) : Reads α (α × Bool) := do
  let probptr := n * layer.dim
  let ilabel := ops.toInt label
  if 278 ≤ ilabel ∨ ilabel < 0 then Access.Prog.fail .label
  else
    let probOfTruth ← Access.Prog.read .range n () (probptr + ilabel.toNat)
    let probvec ← (List.range layer.dim).foldlM (fun probvec j => do
      let p ← Access.Prog.read .range n () (probptr + j)
      return probvec ++ [(p, j)]) []
    -- `partial_sort` sorts the first `topk` places
    if layer.dim < layer.topk then Access.Prog.fail .range
    else
      let top := (probvec.insertionSort Before).take layer.topk
      return (probOfTruth, top.any fun p => (p.2 : Int) = ilabel)

/-- The loop of `ComputeFeature` and the two numbers it adds to the metric: loss and accuracy. The `CHECK`
behind the loop compares `probptr` with the end of the last row, where it is then. -/
def score (ops : FloatOps α) (layer : SoftmaxLossLayer α) (labels : LayerBlob α) : Reads α (α × α) := do
  let (loss, precision) ← (List.range layer.batchsize).foldlM (fun (s : α × α) n => do
    let label ← Access.Prog.ofExcept (labelAt labels n)
    let (probOfTruth, hit) ← layer.sample ops n label
    return (s.1 - ops.log (max probOfTruth ops.fltMin), if hit then s.2 + 1 else s.2)) (0, 0)
  return (loss * layer.scale / (1 * layer.batchsize), precision * layer.scale / (1 * layer.batchsize))

/-- `Softmax(prob, src)`: the probabilities are the data of the layer. -/
def predict (ops : FloatOps α) (layer : SoftmaxLossLayer α) (source : LayerBlob α) : Run (SoftmaxLossLayer α) := do
  let data ← layer.data.store (layer.batchsize * layer.dim) (softmax ops layer.batchsize layer.dim source.values)
  return { layer with data := data }

/-- `SoftmaxLossLayer::ComputeFeature`: the layer with its probabilities, and what is added to the metric. -/
def computeFeature (ops : FloatOps α) (layer : SoftmaxLossLayer α) (source labels : LayerBlob α) :
    Access.Outcome Abort Unit Nat α (SoftmaxLossLayer α × α × α) :=
  match layer.predict ops source with
  | .error e => ⟨[], fun _ => layer.data.values, .error e⟩
  | .ok layer => (do return (layer, ← layer.score ops labels) : Reads α _) fun _ => layer.data.values

/-- `ComputeGradient` before scaling: the gradient of the source layer. -/
def subtractLabels (ops : FloatOps α) (layer : SoftmaxLossLayer α) (gsrc labels : LayerBlob α) : Run (LayerBlob α) := do
  let gsrc ← gsrc.copyFrom layer.data
  (List.range layer.batchsize).foldlM (fun gsrc n => do
    let label ← labelAt labels n
    let place : Int := n * layer.dim + ops.toInt label
    if place < 0 then .error .range else gsrc.modifyAt place.toNat (· - 1)) gsrc

/-- `SoftmaxLossLayer::ComputeGradient`. -/
def computeGradient (ops : FloatOps α) (layer : SoftmaxLossLayer α) (gsrc labels : LayerBlob α) : Run (LayerBlob α) := do
  let gsrc ← layer.subtractLabels ops gsrc labels
  return ⟨gsrc.shape, gsrc.values.map (· * (layer.scale / (1 * layer.batchsize))), by rw [List.length_map, gsrc.sized]⟩

/-- The access is to the row of the sample it is made for. -/
def InRow (layer : SoftmaxLossLayer α) (x : Access.Entry Unit Nat) : Prop :=
  x.tag * layer.dim ≤ x.index ∧ x.index < (x.tag + 1) * layer.dim

/-- Each sample touches only its own row. -/
structure OwnRows (ops : FloatOps α) (layer : SoftmaxLossLayer α) (source labels gsrc : LayerBlob α) : Prop where
  returns : ∃ r, (layer.computeFeature ops source labels).result = .ok r
  reads : ∀ x ∈ (layer.computeFeature ops source labels).trace, layer.InRow x
  gradient : ∀ prob : LayerBlob α, prob.shape = layer.data.shape →
    ∃ g, ({ layer with data := prob } : SoftmaxLossLayer α).subtractLabels ops gsrc labels = .ok g ∧
      ∀ n label, labels.values[n]? = some label → ∀ j < layer.dim,
        g.values[n * layer.dim + j]? =
          prob.values[n * layer.dim + j]?.map fun p => if (j : Int) = ops.toInt label then p - 1 else p

/-! ## Reading the probabilities -/

omit [Field α] [LinearOrder α] in
/-- An element of row `n` of a matrix. -/
theorem inRow_of_lt (layer : SoftmaxLossLayer α) (n : Nat) {k : Nat} (h : k < layer.dim) :
    layer.InRow ⟨n, (), n * layer.dim + k⟩ := by
  show n * layer.dim ≤ n * layer.dim + k ∧ n * layer.dim + k < (n + 1) * layer.dim
  rw [Nat.succ_mul]
  omega

theorem row_within {batchsize dim n k : Nat} (sample : n < batchsize) (h : k < dim) : n * dim + k < batchsize * dim := by
  have rows : (n + 1) * dim ≤ batchsize * dim := Nat.mul_le_mul_right dim sample
  rw [Nat.succ_mul] at rows
  omega

omit [Field α] in
/-- A label below `dim` keeps the sample in its row. -/
theorem sample_ends (ops : FloatOps α) (layer : SoftmaxLossLayer α) (top : layer.topk ≤ layer.dim) {n : Nat}
    (in_batch : n < layer.batchsize) {label : α} (check : 0 ≤ ops.toInt label ∧ ops.toInt label < 278)
    (below : ops.toInt label < layer.dim) :
    Access.Ends (Access.Sized fun _ => layer.batchsize * layer.dim) layer.InRow (layer.sample ops n label) := by
  have column : (ops.toInt label).toNat < layer.dim := by omega
  unfold sample
  dsimp only
  rw [if_neg (by omega)]
  refine .bind (.read_sized (layer.inRow_of_lt n column) (row_within in_batch column)) fun _ => ?_
  refine .bind (.foldlM (fun j mem probvec => ?_) []) fun _ => ?_
  · have bound := List.mem_range.mp mem
    exact .bind (.read_sized (layer.inRow_of_lt n bound) (row_within in_batch bound)) fun _ => .pure _
  · rw [if_neg (Nat.not_lt.mpr top)]
    exact .pure _

omit [Field α] in
/-- A sample that was scored has read the probability of its label. -/
theorem sample_reads {ops : FloatOps α} {layer : SoftmaxLossLayer α} {n : Nat} {label : α} {s : Unit → List α}
    {r : α × Bool} (returned : (layer.sample ops n label s).result = .ok r) :
    ⟨n, (), n * layer.dim + (ops.toInt label).toNat⟩ ∈ (layer.sample ops n label s).trace := by
  unfold sample at returned ⊢
  dsimp only at returned ⊢
  by_cases stops : 278 ≤ ops.toInt label ∨ ops.toInt label < 0
  · rw [if_pos stops] at returned
    cases returned
  · rw [if_neg stops]
    exact Access.Prog.mem_trace_bind _ (List.mem_singleton.mpr rfl)

omit [Field α] [LinearOrder α] in
theorem labelAt_eq {labels : LayerBlob α} {n : Nat} (bound : n < labels.values.length) :
    labelAt labels n = .ok (labels.values.get ⟨n, bound⟩) := by
  unfold labelAt
  rw [List.getElem?_eq_getElem bound]
  rfl

theorem score_ends (ops : FloatOps α) (layer : SoftmaxLossLayer α) (top : layer.topk ≤ layer.dim) {labels : LayerBlob α}
    (batch : labels.count = layer.batchsize)
    (checks : ∀ label ∈ labels.values, 0 ≤ ops.toInt label ∧ ops.toInt label < 278)
    (below : ∀ label ∈ labels.values, ops.toInt label < layer.dim) :
    Access.Ends (Access.Sized fun _ => layer.batchsize * layer.dim) layer.InRow (layer.score ops labels) := by
  refine .bind (.foldlM (fun n mem s => ?_) _) fun _ => .pure _
  have in_batch := List.mem_range.mp mem
  have bound : n < labels.values.length := by rw [labels.length_values, batch]; exact in_batch
  have found : labelAt labels n = .ok (labels.values.get ⟨n, bound⟩) := labelAt_eq bound
  have listed : labels.values.get ⟨n, bound⟩ ∈ labels.values := List.get_mem _ _
  rw [found]
  show Access.Ends _ _ (layer.sample ops n (labels.values.get ⟨n, bound⟩) >>= _)
  exact .bind (layer.sample_ends ops top in_batch (checks _ listed) (below _ listed)) fun _ => .pure _

/-- A batch that was scored has read the probability of every label. -/
theorem score_reads {ops : FloatOps α} {layer : SoftmaxLossLayer α} {labels : LayerBlob α} {s : Unit → List α} {r : α × α}
    (returned : (layer.score ops labels s).result = .ok r) {n : Nat} (in_batch : n < layer.batchsize) {label : α}
    (found : labels.values[n]? = some label) :
    ⟨n, (), n * layer.dim + (ops.toInt label).toNat⟩ ∈ (layer.score ops labels s).trace := by
  unfold score at returned ⊢
  apply Access.Prog.mem_trace_bind
  obtain ⟨scored, loop⟩ := Access.Prog.result_bind returned
  obtain ⟨c, s', ⟨r', pass⟩, listed⟩ := Access.Prog.foldlM_passes loop n (List.mem_range.mpr in_batch)
  apply listed
  have label_n : labelAt labels n = .ok label := by
    unfold labelAt
    rw [found]
  rw [label_n] at pass ⊢
  obtain ⟨scored, sampled⟩ := Access.Prog.result_bind (m := layer.sample ops n label) pass
  exact Access.Prog.mem_trace_bind (m := layer.sample ops n label) _ (sample_reads sampled)

/-! ## The gradient -/

/-- The probabilities less one at the label, in the first `n` rows. -/
def subtracted (dim : Nat) (column : Nat → Nat) (prob : LayerBlob α) (n : Nat) : LayerBlob α :=
  ⟨prob.shape, prob.values.mapIdx fun i p => if i / dim < n ∧ i % dim = column (i / dim) then p - 1 else p, by
    rw [List.length_mapIdx, prob.sized]⟩

omit [LinearOrder α] in
theorem subtracted_zero (dim : Nat) (column : Nat → Nat) (prob : LayerBlob α) : subtracted dim column prob 0 = prob := by
  refine LayerBlob.ext rfl (List.ext_getElem? fun i => ?_)
  simp [subtracted]

omit [LinearOrder α] in
/-- One more row. -/
theorem subtracted_succ {dim : Nat} {column : Nat → Nat} {prob : LayerBlob α} {n : Nat} (below : column n < dim)
    (within : n * dim + column n < prob.count) :
    (subtracted dim column prob n).modifyAt (n * dim + column n) (· - 1) = .ok (subtracted dim column prob (n + 1)) := by
  have pos : 0 < dim := Nat.zero_lt_of_lt below
  have row : (n * dim + column n) / dim = n := by
    rw [Nat.mul_comm, Nat.mul_add_div pos, Nat.div_eq_of_lt below, Nat.add_zero]
  have place : (n * dim + column n) % dim = column n := by
    rw [Nat.mul_comm, Nat.mul_add_mod, Nat.mod_eq_of_lt below]
  have count : (subtracted dim column prob n).count = prob.count := rfl
  unfold LayerBlob.modifyAt
  rw [count, if_pos within]
  apply congrArg Except.ok
  refine LayerBlob.ext rfl (List.ext_getElem? fun i => ?_)
  show ((subtracted dim column prob n).values.modify (n * dim + column n) (· - 1))[i]? = _
  rw [List.getElem?_modify]
  simp only [subtracted, List.getElem?_mapIdx]
  by_cases here : n * dim + column n = i
  · subst here
    simp only [row, place]
    cases prob.values[n * dim + column n]? <;> simp
  · -- an element of row `n` at its label's place would be this one
    have same : (i / dim < n + 1 ∧ i % dim = column (i / dim)) ↔ (i / dim < n ∧ i % dim = column (i / dim)) := by
      constructor
      · rintro ⟨lt, at_label⟩
        refine ⟨?_, at_label⟩
        by_contra ge
        have row_n : i / dim = n := by omega
        rw [row_n] at at_label
        apply here
        rw [← at_label, ← row_n, Nat.mul_comm]
        exact Nat.div_add_mod i dim
      · rintro ⟨lt, at_label⟩
        exact ⟨Nat.lt_succ_of_lt lt, at_label⟩
    simp only [same, here, if_false]
    cases prob.values[i]? <;> rfl

omit [LinearOrder α] in
/-- `ComputeGradient` takes one from the entry at the label of each row. -/
theorem subtractLabels_eq (ops : FloatOps α) (layer : SoftmaxLossLayer α) {gsrc labels : LayerBlob α}
    (shape : gsrc.shape = layer.data.shape) (whole : layer.data.count = layer.batchsize * layer.dim)
    (batch : labels.count = layer.batchsize)
    (range : ∀ label ∈ labels.values, 0 ≤ ops.toInt label ∧ ops.toInt label < layer.dim) :
    layer.subtractLabels ops gsrc labels =
      .ok (subtracted layer.dim (fun n => (ops.toInt (labels.values.getD n 0)).toNat) layer.data layer.batchsize) := by
  refine Run.do_ok.mpr ⟨layer.data, LayerBlob.copyFrom_same shape, ?_⟩
  conv_lhs => rw [← subtracted_zero layer.dim (fun n => (ops.toInt (labels.values.getD n 0)).toNat) layer.data]
  apply Run.foldlM_range (subtracted layer.dim (fun n => (ops.toInt (labels.values.getD n 0)).toNat) layer.data)
  intro n in_batch
  have bound : n < labels.values.length := by rw [labels.length_values, batch]; exact in_batch
  have getD : labels.values.getD n 0 = labels.values.get ⟨n, bound⟩ := by
    rw [List.getD_eq_getElem?_getD, List.getElem?_eq_getElem bound]
    rfl
  obtain ⟨nonneg, below⟩ := range (labels.values.get ⟨n, bound⟩) (List.get_mem _ _)
  rw [← getD] at nonneg below
  refine Run.do_ok.mpr ⟨_, labelAt_eq bound, ?_⟩
  rw [← getD]
  have place : (n * layer.dim + ops.toInt (labels.values.getD n 0) : Int) =
      (n * layer.dim + (ops.toInt (labels.values.getD n 0)).toNat : Nat) := by
    push_cast
    rw [Int.toNat_of_nonneg nonneg]
  dsimp only
  rw [place, if_neg (by omega), Int.toNat_natCast]
  have column : (ops.toInt (labels.values.getD n 0)).toNat < layer.dim := by omega
  apply subtracted_succ column
  rw [whole]
  exact row_within in_batch column

/-! ## The layer -/

omit [LinearOrder α] in
/-- What `Setup` has made of the shape of the source. -/
theorem setup_eq {topk : Nat} {scale : α} {source labels : LayerBlob α} {layer : SoftmaxLossLayer α}
    (h : setup topk scale [source, labels] = .ok layer) :
    layer.topk = topk ∧ layer.data.shape = source.shape ∧ layer.data.count = layer.batchsize * layer.dim ∧
      source.shape.head? = some layer.batchsize := by
  unfold setup at h
  obtain ⟨data, made, h⟩ := Run.do_ok.mp h
  obtain ⟨nonzero, rfl⟩ := LayerBlob.fresh_ok_iff.mp made
  dsimp only at h
  split at h
  · cases h
  · next batchsize rest shape =>
    cases h
    refine ⟨rfl, rfl, ?_, by rw [shape]; rfl⟩
    show source.shape.prod = batchsize * (source.shape.prod / batchsize)
    exact (Nat.mul_div_cancel' (by rw [shape, List.prod_cons]; exact Nat.dvd_mul_right _ _)).symm

theorem length_softmax (ops : FloatOps α) {batchsize dim : Nat} {energy : List α} (whole : energy.length = batchsize * dim) :
    (softmax ops batchsize dim energy).length = batchsize * dim := by
  unfold softmax
  rw [List.length_flatMap]
  have rows : (List.range batchsize).map (fun y => (softmaxRow ops ((energy.drop (y * dim)).take dim)).length) =
      List.replicate batchsize dim := by
    apply List.eq_replicate_iff.mpr
    refine ⟨by simp, fun k mem => ?_⟩
    obtain ⟨y, listed, rfl⟩ := List.mem_map.mp mem
    have row : (y + 1) * dim ≤ energy.length := by
      rw [whole]
      exact Nat.mul_le_mul_right dim (List.mem_range.mp listed)
    rw [Nat.succ_mul] at row
    simp only [softmaxRow, List.length_map, List.length_take, List.length_drop]
    omega
  rw [rows, List.sum_replicate, smul_eq_mul]

/-- `ComputeFeature` of a layer that has been set up for the source. -/
theorem predict_ok (ops : FloatOps α) {layer : SoftmaxLossLayer α} {source : LayerBlob α}
    (shape : layer.data.shape = source.shape) (whole : layer.data.count = layer.batchsize * layer.dim) :
    ∃ prob : LayerBlob α, prob.shape = layer.data.shape ∧ layer.predict ops source = .ok { layer with data := prob } := by
  have energy : source.values.length = layer.batchsize * layer.dim := by
    rw [source.length_values, ← whole, LayerBlob.count, LayerBlob.count, shape]
  obtain ⟨prob, stored, same, -⟩ := LayerBlob.store_all whole.symm (length_softmax ops energy).ge
  exact ⟨prob, same, Run.do_ok.mpr ⟨prob, stored, rfl⟩⟩

/-- **Each sample of the softmax loss touches only its own row** exactly if every label is below the
length of a row. -/
theorem ownRows_iff (ops : FloatOps α) {topk : Nat} {scale : α} {source labels gsrc : LayerBlob α}
    {layer : SoftmaxLossLayer α} (ready : setup topk scale [source, labels] = .ok layer) (top : topk ≤ layer.dim)
    (batch : labels.count = layer.batchsize) (shape : gsrc.shape = source.shape)
    (checks : ∀ label ∈ labels.values, 0 ≤ ops.toInt label ∧ ops.toInt label < 278) :
    layer.OwnRows ops source labels gsrc ↔ ∀ label ∈ labels.values, ops.toInt label < layer.dim := by
  obtain ⟨rfl, data_shape, whole, -⟩ := setup_eq ready
  obtain ⟨prob, prob_shape, predicted⟩ := predict_ok ops data_shape whole
  have feature : layer.computeFeature ops source labels =
      (do return (({ layer with data := prob } : SoftmaxLossLayer α),
        ← ({ layer with data := prob } : SoftmaxLossLayer α).score ops labels) : Reads α _) fun _ => prob.values := by
    unfold computeFeature
    rw [predicted]
  constructor
  · intro own label mem
    obtain ⟨n, bound, rfl⟩ := List.mem_iff_getElem.mp mem
    obtain ⟨r, returned⟩ := own.returns
    rw [feature] at returned
    obtain ⟨scored, returned⟩ := Access.Prog.result_bind returned
    have in_batch : n < layer.batchsize := by rw [← batch, ← labels.length_values]; exact bound
    have listed := score_reads returned in_batch (List.getElem?_eq_getElem bound)
    have own_row := own.reads _ (by rw [feature]; exact Access.Prog.mem_trace_bind _ listed)
    unfold InRow at own_row
    dsimp only at own_row
    rw [Nat.succ_mul] at own_row
    omega
  · intro below
    have sized : Access.Sized (fun _ => layer.batchsize * layer.dim) (fun _ : Unit => prob.values) := fun _ => by
      rw [prob.length_values, LayerBlob.count, prob_shape, ← whole]
      rfl
    have ends := (({ layer with data := prob } : SoftmaxLossLayer α).score_ends ops top batch checks below).bind
      fun r => .pure (({ layer with data := prob } : SoftmaxLossLayer α), r)
    obtain ⟨returned, -, reads⟩ := ends _ sized
    refine ⟨by rw [feature]; exact returned, by rw [feature]; exact reads, fun prob' shape' => ?_⟩
    have range : ∀ label ∈ labels.values, 0 ≤ ops.toInt label ∧ ops.toInt label < layer.dim :=
      fun label mem => ⟨(checks label mem).1, below label mem⟩
    have whole' : prob'.count = layer.batchsize * layer.dim := by
      rw [LayerBlob.count, shape', ← whole]
      rfl
    refine ⟨_, subtractLabels_eq ops { layer with data := prob' } ?_ whole' batch range, ?_⟩
    · rw [shape, ← data_shape, ← shape']
    · intro n label found j column
      obtain ⟨bound, at_n⟩ := List.getElem?_eq_some_iff.mp found
      have in_batch : n < layer.batchsize := by rw [← batch, ← labels.length_values]; exact bound
      have pos : 0 < layer.dim := Nat.zero_lt_of_lt column
      have row : (n * layer.dim + j) / layer.dim = n := by
        rw [Nat.mul_comm, Nat.mul_add_div pos, Nat.div_eq_of_lt column, Nat.add_zero]
      have place : (n * layer.dim + j) % layer.dim = j := by
        rw [Nat.mul_comm, Nat.mul_add_mod, Nat.mod_eq_of_lt column]
      have nonneg := (range label (List.mem_of_getElem? found)).1
      have same : (j = (ops.toInt label).toNat) ↔ (j : Int) = ops.toInt label := by omega
      simp only [subtracted, List.getElem?_mapIdx, row, place, in_batch, true_and, List.getD_eq_getElem?_getD, found,
        Option.getD_some, same]

/-! ## Labels from records -/

omit [Field α] [LinearOrder α] in
/-- All that `LabelLayer` checks of the labels, beside their number. -/
theorem parseRecords_ok [IntCast α] {rid : Nat} {records : List Int} {blob blob' : LayerBlob α}
    (h : LabelLayer.parseRecords rid records blob = .ok blob') :
    (∀ label ∈ records, label < 278) ∧ blob.shape.head? = some (rid + records.length) := by
  induction records generalizing rid blob with
  | nil =>
    rw [LabelLayer.parseRecords] at h
    cases shape : blob.shape with
    | nil =>
      rw [shape] at h
      cases h
    | cons d rest =>
      rw [shape] at h
      dsimp only at h
      split at h
      · next same => exact ⟨by simp, by rw [same]; rfl⟩
      · cases h
  | cons label records ih =>
    rw [LabelLayer.parseRecords] at h
    obtain ⟨next, stored, h⟩ := Run.do_ok.mp h
    have shape : next.shape = blob.shape := by
      unfold LayerBlob.modifyAt at stored
      split at stored <;> cases stored
      rfl
    split at h
    · next small =>
      obtain ⟨below, number⟩ := ih h
      refine ⟨fun other mem => ?_, ?_⟩
      · rcases List.mem_cons.mp mem with rfl | mem
        · exact small
        · exact below other mem
      · rw [← shape, number, List.length_cons]
        congr 1
        omega
    · cases h

/-- Two samples of one class with energies 0: `exp` is applied to 0 and `log` to 1. -/
def plainOps : FloatOps ℚ := ⟨fun _ => 1, fun _ => 0, 1 / 2 ^ 126, fun q => q.num.tdiv q.den⟩

/-- The source of the two samples. -/
def twoSamples : LayerBlob ℚ := ⟨[2, 1], [0, 0], rfl⟩

/-- The labels 1 and 0 are accepted, and sample 0 reads the row of sample 1. -/
theorem twoSamples_not_ownRows :
    LabelLayer.parseRecords 0 [1, 0] ⟨[2], [0, 0], rfl⟩ = .ok (⟨[2], [1, 0], rfl⟩ : LayerBlob ℚ) ∧
      ∃ layer : SoftmaxLossLayer ℚ, setup 1 1 [twoSamples, ⟨[2], [1, 0], rfl⟩] = .ok layer ∧ layer.dim = 1 ∧
        (∀ label ∈ ([1, 0] : List ℚ), 0 ≤ plainOps.toInt label ∧ plainOps.toInt label < 278) ∧
        ¬ layer.OwnRows plainOps twoSamples ⟨[2], [1, 0], rfl⟩ twoSamples := by
  refine ⟨by rfl, ⟨2, 1, 1, 1, ⟨[2, 1], [0, 0], rfl⟩⟩, rfl, rfl, by decide, fun own => ?_⟩
  have read : (⟨0, (), 1⟩ : Access.Entry Unit Nat) ∈
      ((⟨2, 1, 1, 1, ⟨[2, 1], [0, 0], rfl⟩⟩ : SoftmaxLossLayer ℚ).computeFeature plainOps twoSamples
        ⟨[2], [1, 0], rfl⟩).trace := by decide +kernel
  exact absurd (own.reads _ read) (by unfold InRow; decide)

/-- With labels 0 both samples keep to their rows. -/
theorem twoSamples_ownRows :
    ∃ layer : SoftmaxLossLayer ℚ, setup 1 1 [twoSamples, ⟨[2], [0, 0], rfl⟩] = .ok layer ∧
      layer.OwnRows plainOps twoSamples ⟨[2], [0, 0], rfl⟩ twoSamples := by
  refine ⟨⟨2, 1, 1, 1, ⟨[2, 1], [0, 0], rfl⟩⟩, rfl, ?_⟩
  exact (ownRows_iff plainOps (rfl : setup 1 1 [twoSamples, ⟨[2], [0, 0], rfl⟩] = .ok _) (by decide) rfl rfl
    (by decide)).mpr (by decide)

end SoftmaxLossLayer
end Singa
