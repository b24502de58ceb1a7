import Singa.Neuralnet.LayerBlob

/-!
# `SliceLayer` and `ConcateLayer`

`SliceLayer::Setup` divides one dimension of the source among the slices and
gives what remains to the last one. `ComputeFeature` cuts the elements, for
dimension 0, into equal pieces. The `CHECK` between the two is on the number of
elements, so the pieces have the size of the slices exactly if the dimension is
divided without a remainder.
-/

namespace Singa
set_option autoImplicit false

variable {α : Type}

structure SliceLayer (α : Type) where
  sliceDim : Int
  sliceNum : Nat
  data : LayerBlob α
  grad : LayerBlob α
  datavec : List (LayerBlob α)
  gradvec : List (LayerBlob α)

namespace SliceLayer

/-- `newshape` of slice `i`. -/
def newShape (sliceDim sliceNum : Nat) (shape : List Nat) (i : Nat) : Run (List Nat) :=
  match shape[sliceDim]? with
  | none => .error .range
  | some d => .ok (shape.set sliceDim (d / sliceNum + if i = sliceNum - 1 then d % sliceNum else 0))

/-- `SliceLayer::Setup`, for a source layer and `dstlayers` destination layers. The first check is that of
`Layer::Setup`. -/
def setup [Zero α] (sliceDim : Int) (npartitions : Nat) (dstlayers : Nat) (source : LayerBlob α) :
    Run (SliceLayer α) :=
  if npartitions = 0 then .error .npartitions
  else if sliceDim < 0 then .error .sliceDim
  else if npartitions ≠ dstlayers then .error .sliceNum
  else do
    let data ← LayerBlob.fresh source.shape
    let grad ← LayerBlob.fresh data.shape
    -- restrict equal slicing
    if data.count % npartitions ≠ 0 then .error .equalSlicing
    else
      let slices ← (List.range npartitions).mapM fun i => do
        let newshape ← newShape sliceDim.toNat npartitions data.shape i
        LayerBlob.fresh newshape
      -- the blobs of the gradient are shaped alike
      return ⟨sliceDim, npartitions, data, grad, slices, slices⟩

/-- `size` in `ComputeFeature`. -/
def size (layer : SliceLayer α) (blob : LayerBlob α) : Nat := blob.count / layer.sliceNum

/-- `SliceLayer::ComputeFeature`. -/
def computeFeature (layer : SliceLayer α) (srclayers : List (LayerBlob α)) : Run (SliceLayer α) :=
  match srclayers with
  | [blob] =>
    if layer.sliceDim = 0 then do
      let datavec ← layer.datavec.zipIdx.mapM fun (dst, i) =>
        dst.store (layer.size blob) (blob.values.drop (i * layer.size blob))
      return { layer with datavec := datavec }
    else .ok layer
  | _ => .error .srcLayers

end SliceLayer

namespace ConcateLayer

/-- The loop over the dimensions, from dimension `j` on. -/
def addShape (concateDim : Nat) : Nat → List Nat → List Nat → Run (List Nat)
  | _, [], _ => .ok []
  | _, _ :: _, [] => .error .range
  | j, a :: shape, b :: srcshape =>
    if j = concateDim then do
      let rest ← addShape concateDim (j + 1) shape srcshape
      return (a + b) :: rest
    else if a = b then do
      let rest ← addShape concateDim (j + 1) shape srcshape
      return a :: rest
    else .error .concateShape

/-- `ConcateLayer::Setup`: the shape of its blobs, for the shapes of its source layers. The dimension is
converted to a `size_t`. -/
def setup [Zero α] (concateDim : Int) (srcshapes : List (List Nat)) : Run (LayerBlob α) :=
  match srcshapes with
  | [] => .error .srcLayers
  | [_] => .error .srcLayers
  | shape :: rest => do
    let shape ← rest.foldlM (addShape (concateDim % 2 ^ 64).toNat 0) shape
    LayerBlob.fresh shape

end ConcateLayer

namespace SliceLayer

variable [Zero α]

/-- Slicing loses and overruns nothing. -/
structure Exact (layer : SliceLayer α) (source : LayerBlob α) : Prop where
  dims : (layer.datavec.map fun slice => slice.shape.headD 0).sum = source.shape.headD 0
  writes : ∀ slice ∈ layer.datavec, layer.size source = slice.count
  copies : ∃ after, layer.computeFeature [source] = .ok after ∧
    after.datavec.map LayerBlob.shape = layer.datavec.map LayerBlob.shape ∧
    (after.datavec.map LayerBlob.values).flatten = source.values
  concate : ∃ whole : LayerBlob α, ConcateLayer.setup 0 (layer.datavec.map LayerBlob.shape) = .ok whole ∧
    whole.shape = source.shape

/-- Dimension 0 of slice `i`. -/
def part (d sliceNum i : Nat) : Nat := d / sliceNum + if i = sliceNum - 1 then d % sliceNum else 0

/-- The parts add up to the dimension. -/
theorem sum_part (d : Nat) {sliceNum : Nat} (pos : 0 < sliceNum) :
    ((List.range sliceNum).map (part d sliceNum)).sum = d := by
  obtain ⟨n, rfl⟩ : ∃ n, sliceNum = n + 1 := ⟨sliceNum - 1, by omega⟩
  have equal : (List.range n).map (part d (n + 1)) = List.replicate n (d / (n + 1)) := by
    apply List.eq_replicate_iff.mpr
    refine ⟨by simp, fun x mem => ?_⟩
    obtain ⟨i, bound, rfl⟩ := List.mem_map.mp mem
    rw [part, if_neg (by have := List.mem_range.mp bound; omega), Nat.add_zero]
  rw [List.range_succ, List.map_append, List.sum_append, equal, List.sum_replicate, smul_eq_mul, List.map_singleton,
    List.sum_singleton, part, if_pos (by omega)]
  have whole := Nat.div_add_mod d (n + 1)
  rw [Nat.add_mul, Nat.one_mul] at whole
  omega

/-- Lists whose elements correspond have the same images. -/
theorem forall₂_map_eq {β γ δ : Type} {R : β → γ → Prop} {f : β → δ} {g : γ → δ} {l : List β} {r : List γ}
    (h : List.Forall₂ R l r) (each : ∀ a b, R a b → g b = f a) : r.map g = l.map f := by
  induction h with
  | nil => rfl
  | cons first _ ih => rw [List.map_cons, List.map_cons, each _ _ first, ih]

/-- A layer that has been set up along dimension 0 of a source of shape `d :: rest`. -/
structure SetUp (layer : SliceLayer α) (d : Nat) (rest : List Nat) : Prop where
  dim : layer.sliceDim = 0
  pos : 0 < layer.sliceNum
  divides : layer.sliceNum ∣ (d :: rest).prod
  slices : layer.datavec.map LayerBlob.shape = (List.range layer.sliceNum).map fun i => part d layer.sliceNum i :: rest

/-- What `Setup` has checked and made. -/
theorem setup_zero {npartitions dstlayers : Nat} {source : LayerBlob α} {layer : SliceLayer α}
    (h : setup 0 npartitions dstlayers source = .ok layer) :
    ∃ d rest, source.shape = d :: rest ∧ layer.sliceNum = npartitions ∧ layer.SetUp d rest := by
  unfold setup at h
  split at h
  · cases h
  next some_part =>
  rw [if_neg (by decide)] at h
  split at h
  · cases h
  obtain ⟨data, made, h⟩ := Run.do_ok.mp h
  obtain ⟨grad, -, h⟩ := Run.do_ok.mp h
  split at h
  · cases h
  next divides =>
  obtain ⟨slices, cut, h⟩ := Run.do_ok.mp h
  cases h
  obtain ⟨-, rfl⟩ := LayerBlob.fresh_ok_iff.mp made
  have pos : 0 < npartitions := Nat.pos_of_ne_zero some_part
  obtain ⟨-, each⟩ := Run.mapM_ok cut
  cases shape : source.shape with
  | nil =>
    obtain ⟨slice, stopped⟩ := each 0 (List.mem_range.mpr pos)
    rw [shape] at stopped
    cases stopped
  | cons d rest =>
    refine ⟨d, rest, rfl, rfl, rfl, pos, ?_, ?_⟩
    · rw [← shape]
      exact Nat.dvd_of_mod_eq_zero (not_not.mp divides)
    · -- every slice is a fresh blob of its shape
      rw [shape] at cut
      show slices.map LayerBlob.shape = _
      apply forall₂_map_eq (Run.mapM_forall₂.mp cut)
      intro i slice made
      obtain ⟨newshape, named, made⟩ := Run.do_ok.mp made
      cases named
      obtain ⟨-, rfl⟩ := LayerBlob.fresh_ok_iff.mp made
      rfl

/-- The pieces of equal size are the whole again. -/
theorem flatten_pieces {β : Type} (size n : Nat) {l : List β} (length : l.length = n * size) :
    ((List.range n).map fun i => (l.drop (i * size)).take size).flatten = l := by
  induction n generalizing l with
  | zero =>
    rw [Nat.zero_mul] at length
    rw [List.eq_nil_of_length_eq_zero length]
    rfl
  | succ n ih =>
    rw [Nat.succ_mul] at length
    have rest : (l.drop size).length = n * size := by
      rw [List.length_drop]
      omega
    have later : (List.range n).map (fun i => (l.drop ((i + 1) * size)).take size) =
        (List.range n).map fun i => ((l.drop size).drop (i * size)).take size := by
      apply List.map_congr_left
      intro i _
      rw [List.drop_drop, Nat.succ_mul, Nat.add_comm size]
    rw [List.range_succ_eq_map, List.map_cons, List.map_map, List.flatten_cons, Nat.zero_mul, List.drop_zero]
    show l.take size ++ ((List.range n).map fun i => (l.drop ((i + 1) * size)).take size).flatten = l
    rw [later, ih rest, List.take_append_drop]

omit [Zero α] in
/-- Slices that are as large as the pieces take them all, one after the other. -/
theorem computeFeature_exact {layer : SliceLayer α} (dim : layer.sliceDim = 0) {source : LayerBlob α}
    (number : layer.datavec.length = layer.sliceNum) (divides : layer.sliceNum ∣ source.count)
    (writes : ∀ slice ∈ layer.datavec, layer.size source = slice.count) :
    ∃ after, layer.computeFeature [source] = .ok after ∧
      after.datavec.map LayerBlob.shape = layer.datavec.map LayerBlob.shape ∧
      (after.datavec.map LayerBlob.values).flatten = source.values := by
  have total : source.values.length = layer.sliceNum * layer.size source := by
    rw [source.length_values, size, Nat.mul_div_cancel' divides]
  -- piece `p.2` fills slice `p.1`
  have pieces : ∀ p ∈ layer.datavec.zipIdx, ∃ after,
      p.1.store (layer.size source) (source.values.drop (p.2 * layer.size source)) = .ok after ∧
      after.shape = p.1.shape ∧
      after.values = (source.values.drop (p.2 * layer.size source)).take (layer.size source) := by
    rintro ⟨slice, i⟩ mem
    obtain ⟨bound, at_i⟩ := List.mem_zipIdx' mem
    have listed : slice ∈ layer.datavec := at_i ▸ List.getElem_mem bound
    have within : (i + 1) * layer.size source ≤ source.values.length := by
      rw [total]
      apply Nat.mul_le_mul_right
      omega
    apply LayerBlob.store_all (writes slice listed)
    rw [Nat.succ_mul] at within
    rw [List.length_drop]
    dsimp only
    omega
  obtain ⟨datavec, copied, each⟩ := Run.mapM_exists pieces
  refine ⟨{ layer with datavec := datavec }, ?_, ?_, ?_⟩
  · show (if layer.sliceDim = 0 then _ else _) = _
    rw [if_pos dim]
    exact Run.do_ok.mpr ⟨datavec, copied, rfl⟩
  · have shapes := forall₂_map_eq (f := fun p => p.1.shape) (g := LayerBlob.shape) each fun p after h => h.1
    have slices : layer.datavec.zipIdx.map Prod.fst = layer.datavec := List.zipIdx_map_fst 0 _
    show datavec.map LayerBlob.shape = _
    rw [shapes]
    conv_rhs => rw [← slices, List.map_map]
    rfl
  · have values := forall₂_map_eq
      (f := fun p => (source.values.drop (p.2 * layer.size source)).take (layer.size source))
      (g := LayerBlob.values) each fun p after h => h.2
    have indices : layer.datavec.zipIdx.map Prod.snd = List.range layer.sliceNum := by
      rw [List.zipIdx_map_snd, number, List.range_eq_range']
    have whole := flatten_pieces (layer.size source) layer.sliceNum total
    rw [← indices, List.map_map] at whole
    show (datavec.map LayerBlob.values).flatten = _
    rw [values]
    exact whole

/-- Shapes that differ in dimension 0 only are added up there. -/
theorem addShape_zero (a b : Nat) (rest : List Nat) : ConcateLayer.addShape 0 0 (a :: rest) (b :: rest) = .ok ((a + b) :: rest) := by
  have same (j : Nat) (l : List Nat) : ConcateLayer.addShape 0 (j + 1) l l = .ok l := by
    induction l generalizing j with
    | nil => rfl
    | cons c l ih =>
      rw [ConcateLayer.addShape, if_neg (Nat.succ_ne_zero j), if_pos rfl]
      exact Run.do_ok.mpr ⟨l, ih (j + 1), rfl⟩
  rw [ConcateLayer.addShape, if_pos rfl]
  exact Run.do_ok.mpr ⟨rest, same 0 rest, rfl⟩

theorem addShapes_zero (a : Nat) (parts rest : List Nat) :
    (parts.map (· :: rest)).foldlM (ConcateLayer.addShape 0 0) (a :: rest) = .ok ((a + parts.sum) :: rest) := by
  induction parts generalizing a with
  | nil => rfl
  | cons b parts ih =>
    rw [List.map_cons, List.sum_cons, ← Nat.add_assoc]
    exact Run.foldlM_cons_ok (addShape_zero a b rest) (ih (a + b))

/-- At least two slices along dimension 0 are put together again. -/
theorem concate_slices {a b : Nat} {parts rest : List Nat} (positive : ∀ d ∈ (a + (b + parts.sum)) :: rest, 0 < d) :
    ∃ whole : LayerBlob α, ConcateLayer.setup 0 ((a :: b :: parts).map (· :: rest)) = .ok whole ∧
      whole.shape = (a + (b + parts.sum)) :: rest := by
  have nonzero : 0 ∉ (a + (b + parts.sum)) :: rest := fun mem => lt_irrefl 0 (positive 0 mem)
  refine ⟨_, Run.do_ok.mpr ⟨_, addShapes_zero a (b :: parts) rest, LayerBlob.fresh_ok_iff.mpr ⟨nonzero, rfl⟩⟩, rfl⟩

omit [Zero α] in
/-- The sizes along dimension 0 add up, whatever remains. -/
theorem SetUp.dims {layer : SliceLayer α} {d : Nat} {rest : List Nat} (h : layer.SetUp d rest) :
    (layer.datavec.map fun slice => slice.shape.headD 0).sum = d := by
  have heads : layer.datavec.map (fun slice => slice.shape.headD 0) =
      (layer.datavec.map LayerBlob.shape).map (·.headD 0) := by rw [List.map_map]; rfl
  rw [heads, h.slices, List.map_map]
  exact sum_part d h.pos

omit [Zero α] in
theorem SetUp.mem {layer : SliceLayer α} {d : Nat} {rest : List Nat} (h : layer.SetUp d rest) {slice : LayerBlob α}
    (mem : slice ∈ layer.datavec) : ∃ i < layer.sliceNum, slice.shape = part d layer.sliceNum i :: rest := by
  have shape := List.mem_map_of_mem (f := LayerBlob.shape) mem
  rw [h.slices] at shape
  obtain ⟨i, bound, same⟩ := List.mem_map.mp shape
  exact ⟨i, List.mem_range.mp bound, same.symm⟩

omit [Zero α] in
/-- The pieces have the sizes of the slices exactly if nothing remains. -/
theorem SetUp.writes_iff {layer : SliceLayer α} {d : Nat} {rest : List Nat} (h : layer.SetUp d rest)
    {source : LayerBlob α} (shape : source.shape = d :: rest) (positive : ∀ e ∈ rest, 0 < e) :
    (∀ slice ∈ layer.datavec, layer.size source = slice.count) ↔ layer.sliceNum ∣ d := by
  have stride : 0 < rest.prod := List.prod_pos positive
  have divides := h.divides
  have size : layer.size source = d * rest.prod / layer.sliceNum := by
    rw [SliceLayer.size, LayerBlob.count, shape, List.prod_cons]
  rw [List.prod_cons] at divides
  rw [size]
  constructor
  · -- the first slice has the size of a piece
    intro writes
    have first : (part d layer.sliceNum 0 :: rest) ∈ layer.datavec.map LayerBlob.shape := by
      rw [h.slices]
      exact List.mem_map.mpr ⟨0, List.mem_range.mpr h.pos, rfl⟩
    obtain ⟨slice, mem, shape⟩ := List.mem_map.mp first
    have count := writes slice mem
    rw [LayerBlob.count, shape, List.prod_cons] at count
    have whole : d * rest.prod = layer.sliceNum * part d layer.sliceNum 0 * rest.prod := by
      rw [Nat.mul_assoc, ← count, Nat.mul_div_cancel' divides]
    exact ⟨_, Nat.eq_of_mul_eq_mul_right stride whole⟩
  · intro even slice mem
    obtain ⟨i, -, shape⟩ := h.mem mem
    have equal : part d layer.sliceNum i = d / layer.sliceNum := by
      rw [part, Nat.mod_eq_zero_of_dvd even, ite_self, Nat.add_zero]
    rw [LayerBlob.count, shape, List.prod_cons, equal]
    exact (Nat.div_mul_right_comm even _).symm

/-- **Slicing along dimension 0.** Nothing is lost and nothing overrun exactly if the number of slices
divides the dimension; `ConcateLayer` takes two slices or more. -/
theorem exact_iff {npartitions dstlayers : Nat} {source : LayerBlob α} {layer : SliceLayer α}
    (positive : ∀ d ∈ source.shape, 0 < d) (h : setup 0 npartitions dstlayers source = .ok layer) :
    layer.Exact source ↔ npartitions ∣ source.shape.headD 0 ∧ 2 ≤ npartitions := by
  obtain ⟨d, rest, shape, rfl, ready⟩ := setup_zero h
  have positive_rest : ∀ e ∈ rest, 0 < e := fun e mem => positive e (shape ▸ List.mem_cons_of_mem d mem)
  have writes := ready.writes_iff shape positive_rest
  have number : layer.datavec.length = layer.sliceNum := by
    have lengths := congrArg List.length ready.slices
    rwa [List.length_map, List.length_map, List.length_range] at lengths
  rw [shape]
  constructor
  · intro exact_layer
    refine ⟨writes.mp exact_layer.writes, ?_⟩
    obtain ⟨whole, concate, -⟩ := exact_layer.concate
    by_contra few
    have one : layer.sliceNum = 1 := by
      have := ready.pos
      omega
    rw [ready.slices, one] at concate
    cases concate
  · rintro ⟨even, several⟩
    have divides : layer.sliceNum ∣ source.count := by
      rw [LayerBlob.count, shape]
      exact ready.divides
    refine ⟨by rw [ready.dims, shape]; rfl, writes.mpr even, ?_, ?_⟩
    · exact computeFeature_exact ready.dim number divides (writes.mpr even)
    · -- the first two parts and the others
      obtain ⟨n, two⟩ : ∃ n, layer.sliceNum = n + 2 := ⟨layer.sliceNum - 2, by omega⟩
      have parts : (List.range layer.sliceNum).map (part d layer.sliceNum) =
          part d layer.sliceNum 0 :: part d layer.sliceNum 1 ::
            (List.range n).map fun i => part d layer.sliceNum (i + 2) := by
        rw [two, List.range_succ_eq_map, List.range_succ_eq_map]
        simp
      have sum := sum_part d ready.pos
      rw [parts, List.sum_cons, List.sum_cons] at sum
      have shapes : layer.datavec.map LayerBlob.shape =
          ((List.range layer.sliceNum).map (part d layer.sliceNum)).map (· :: rest) := by
        rw [ready.slices, List.map_map]
        rfl
      obtain ⟨whole, put, same⟩ := concate_slices (α := α) (by rw [sum, ← shape]; exact positive)
      refine ⟨whole, ?_, ?_⟩
      · rw [shapes, parts]
        exact put
      · rw [same, sum, shape]

/-- A source of shape 3 x 2 in two slices: `Setup` passes, and the first piece is larger than the first slice. -/
theorem setup_uneven :
    ∃ layer : SliceLayer ℚ, setup 0 2 2 ⟨[3, 2], [1, 2, 3, 4, 5, 6], rfl⟩ = .ok layer ∧
      layer.computeFeature [⟨[3, 2], [1, 2, 3, 4, 5, 6], rfl⟩] = .error .range ∧
      ¬ layer.Exact ⟨[3, 2], [1, 2, 3, 4, 5, 6], rfl⟩ := by
  refine ⟨⟨0, 2, ⟨[3, 2], List.replicate 6 0, rfl⟩, ⟨[3, 2], List.replicate 6 0, rfl⟩,
    [⟨[1, 2], [0, 0], rfl⟩, ⟨[2, 2], [0, 0, 0, 0], rfl⟩], [⟨[1, 2], [0, 0], rfl⟩, ⟨[2, 2], [0, 0, 0, 0], rfl⟩]⟩,
    rfl, rfl, ?_⟩
  intro exact_layer
  exact absurd (exact_layer.writes ⟨[1, 2], [0, 0], rfl⟩ List.mem_cons_self) (by decide)

/-- A source of shape 4 x 2 in two slices. -/
theorem setup_even :
    ∃ layer : SliceLayer ℚ, setup 0 2 2 ⟨[4, 2], [1, 2, 3, 4, 5, 6, 7, 8], rfl⟩ = .ok layer ∧
      layer.Exact ⟨[4, 2], [1, 2, 3, 4, 5, 6, 7, 8], rfl⟩ := by
  refine ⟨⟨0, 2, ⟨[4, 2], List.replicate 8 0, rfl⟩, ⟨[4, 2], List.replicate 8 0, rfl⟩,
    [⟨[2, 2], [0, 0, 0, 0], rfl⟩, ⟨[2, 2], [0, 0, 0, 0], rfl⟩],
    [⟨[2, 2], [0, 0, 0, 0], rfl⟩, ⟨[2, 2], [0, 0, 0, 0], rfl⟩]⟩, rfl, ?_⟩
  apply (exact_iff (by decide) (rfl : setup 0 2 2 _ = .ok _)).mpr
  decide

end SliceLayer
end Singa
