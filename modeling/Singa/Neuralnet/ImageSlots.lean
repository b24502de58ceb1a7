import Singa.Neuralnet.RGBImage

/-!
# Does `RGBImageLayer` keep to its slots?

While there is no cropping, a record is as large as its slot. With cropping, a
training pass goes by way of the raw image and needs an image that is larger
than the crop in both directions, because the offset is a remainder; any other
pass writes the whole record into the slot of the cropped one.
-/

namespace Singa
set_option autoImplicit false

variable {α : Type}

namespace RGBImageLayer

/-! ## Parts of a pass -/

section Parts

variable {layer : RGBImageLayer α} {slot extent : Extent}

/-- Elements written one after the other. -/
theorem writeAll_ends {β : Type} {l : List β} (g : β → α) {rid : Nat} {dptr : ImageBuffer} {base : Nat}
    (room : ∀ i < l.length, layer.InSlot slot extent ⟨some rid, dptr, base + i⟩) :
    Access.Ends (Access.Sized (layer.bufferSize slot extent)) (layer.InSlot slot extent)
      (forM l.zipIdx fun (v, i) => Access.Prog.write .range (some rid) dptr (base + i) (g v) : ImageProg α Unit) := by
  refine .each ?_
  rintro ⟨v, i⟩ mem
  obtain ⟨bound, -⟩ := List.mem_zipIdx' mem
  exact .write_sized (room i bound) (room i bound).1

/-- Of more elements than there is room for, the first one too many is written too. -/
theorem writeAll_overrun {β : Type} {l : List β} (g : β → α) {rid : Nat} {dptr : ImageBuffer} {base n : Nat}
    (room : ∀ i < n, layer.InSlot slot extent ⟨some rid, dptr, base + i⟩) (long : n < l.length)
    {s : ImageBuffer → List α} (sized : Access.Sized (layer.bufferSize slot extent) s) :
    ⟨some rid, dptr, base + n⟩ ∈ ((forM l.zipIdx fun (v, i) =>
      Access.Prog.write .range (some rid) dptr (base + i) (g v) : ImageProg α Unit) s).trace := by
  have split : l.zipIdx = (l.take n).zipIdx ++ (l.get ⟨n, long⟩, n) :: (l.drop (n + 1)).zipIdx (n + 1) := by
    have whole : l = l.take n ++ l.get ⟨n, long⟩ :: l.drop (n + 1) := by
      rw [List.get_eq_getElem, List.cons_getElem_drop_succ, List.take_append_drop]
    conv_lhs => rw [whole]
    rw [List.zipIdx_append, List.zipIdx_cons, List.length_take, Nat.min_eq_left long.le, Nat.zero_add]
  rw [split]
  have ends : ∀ p ∈ (l.take n).zipIdx, Access.Ends (Access.Sized (layer.bufferSize slot extent))
      (layer.InSlot slot extent) (Access.Prog.write .range (some rid) dptr (base + p.2) (g p.1) : ImageProg α Unit) := by
    rintro ⟨v, i⟩ mem
    obtain ⟨bound, -⟩ := List.mem_zipIdx' mem
    rw [List.length_take] at bound
    have small : i < n := by omega
    exact .write_sized (room i small) (room i small).1
  obtain ⟨s', -, reached⟩ := Access.Ends.reaches ends (l.get ⟨n, long⟩, n) ((l.drop (n + 1)).zipIdx (n + 1)) sized
  exact reached _ (List.mem_singleton.mpr rfl)

/-- An assignment reads where its expression does, and writes the image. -/
theorem assign_ends {image : Image} {rid : Nat} {from_extent : Extent} {expr : Nat → Nat → ImageProg α α}
    (same : from_extent = image.extent)
    (target : ∀ y < image.extent.channels * image.extent.height, ∀ x < image.extent.width,
      layer.InSlot slot extent ⟨some rid, image.buffer, image.place y x⟩)
    (reads : ∀ y < image.extent.channels * image.extent.height, ∀ x < image.extent.width,
      Access.Ends (Access.Sized (layer.bufferSize slot extent)) (layer.InSlot slot extent) (expr y x)) :
    Access.Ends (Access.Sized (layer.bufferSize slot extent)) (layer.InSlot slot extent)
      (image.assign (some rid) from_extent expr) := by
  unfold Image.assign
  rw [if_neg (not_not.mpr same)]
  refine .each fun y row => .each fun x column => ?_
  have hy := List.mem_range.mp row
  have hx := List.mem_range.mp column
  exact .bind (reads y hy x hx) fun v => .write_sized (target y hy x hx) (target y hy x hx).1

theorem pitch_ge (e : Extent) : e.width ≤ e.pitch := by
  unfold Extent.pitch
  omega

/-- A place of a tensor is within its rows. -/
theorem place_lt {y x rows stride : Nat} (row : y < rows) (column : x < stride) : y * stride + x < rows * stride := by
  have whole : (y + 1) * stride ≤ rows * stride := Nat.mul_le_mul_right stride row
  rw [Nat.succ_mul] at whole
  omega

/-- A slot of the data blob. -/
theorem image_inSlot {batchsize rid : Nat} (count : layer.data.count = batchsize * slot.size) (batch : rid < batchsize)
    {i : Nat} (bound : i < slot.size) : layer.InSlot slot extent ⟨some rid, .data, rid * slot.size + i⟩ := by
  have within := place_lt batch bound
  refine ⟨by rw [bufferSize, count]; exact within, ?_⟩
  rintro n same -
  cases same
  show rid * slot.size ≤ rid * slot.size + i ∧ rid * slot.size + i < (rid + 1) * slot.size
  rw [Nat.succ_mul]
  omega

theorem rawImage_inSlot {rid i : Nat} (bound : i < extent.allocated) :
    layer.InSlot slot extent ⟨some rid, .rawImage, i⟩ := ⟨bound, fun _ _ data => by cases data⟩

theorem cropedImage_inSlot (crops : layer.cropsize ≠ 0) {rid i : Nat} (bound : i < slot.allocated) :
    layer.InSlot slot extent ⟨some rid, .cropedImage, i⟩ :=
  ⟨by rw [bufferSize, if_pos crops]; exact bound, fun _ _ data => by cases data⟩

/-- A raw image has room for a whole record. -/
theorem size_le_allocated (e : Extent) : e.size ≤ e.allocated := Nat.mul_le_mul_left _ (pitch_ge e)

end Parts

/-! ## One record -/

variable [Field α] {layer : RGBImageLayer α} {slot extent : Extent}

theorem copyRecord_ends {record : ImageRecord α} (whole : Whole extent record) (pos : 0 < extent.size) {rid : Nat}
    {dptr : ImageBuffer} {base : Nat} (room : ∀ i < extent.size, layer.InSlot slot extent ⟨some rid, dptr, base + i⟩) :
    Access.Ends (Access.Sized (layer.bufferSize slot extent)) (layer.InSlot slot extent)
      (copyRecord (some rid) record dptr base) := by
  unfold copyRecord
  rcases whole.values with length | ⟨none, length⟩
  · rw [if_pos (by omega)]
    exact writeAll_ends (fun byte : Fin 256 => ((byte : Nat) : α)) fun i bound => room i (length ▸ bound)
  · rw [if_neg (by rw [none]; decide)]
    exact writeAll_ends id fun i bound => room i (length ▸ bound)

/-- A record that is larger than its room is written past it. -/
theorem copyRecord_overrun {record : ImageRecord α} (whole : Whole extent record) {rid : Nat} {dptr : ImageBuffer}
    {base n : Nat} (room : ∀ i < n, layer.InSlot slot extent ⟨some rid, dptr, base + i⟩) (long : n < extent.size)
    {s : ImageBuffer → List α} (sized : Access.Sized (layer.bufferSize slot extent) s) :
    ⟨some rid, dptr, base + n⟩ ∈ (copyRecord (some rid) record dptr base s).trace := by
  unfold copyRecord
  rcases whole.values with length | ⟨none, length⟩
  · rw [if_pos (by omega)]
    exact writeAll_overrun (fun byte : Fin 256 => ((byte : Nat) : α)) room (length ▸ long) sized
  · rw [if_neg (by rw [none]; decide)]
    exact writeAll_overrun id room (length ▸ long) sized

theorem subtractMean_ends {rid : Nat} {dptr : ImageBuffer} {base : Nat}
    (room : ∀ i < layer.mean.count, layer.InSlot slot extent ⟨some rid, dptr, base + i⟩) :
    Access.Ends (Access.Sized (layer.bufferSize slot extent)) (layer.InSlot slot extent)
      (subtractMean (some rid) layer.mean.count dptr base : ImageProg α Unit) := by
  refine .each fun i mem => ?_
  have bound := List.mem_range.mp mem
  have in_mean : layer.InSlot slot extent ⟨some rid, .mean, i⟩ := ⟨bound, fun _ _ data => by cases data⟩
  refine .bind (.read_sized in_mean bound) fun m => ?_
  exact .bind (.read_sized (room i bound) (room i bound).1) fun v => .write_sized (room i bound) (room i bound).1

/-- A layer that has been set up for records of an extent that the crop is within. -/
structure Fits (layer : RGBImageLayer α) (slot extent : Extent) (batchsize : Nat) : Prop where
  count : layer.data.count = batchsize * slot.size
  mean : layer.mean.count = slot.size
  channels : slot.channels = extent.channels
  pos : 0 < slot.size
  whole : layer.cropsize = 0 → slot = extent
  crop : layer.cropsize ≠ 0 → slot.height = layer.cropsize ∧ slot.width = layer.cropsize
  height : slot.height ≤ extent.height
  width : slot.width ≤ extent.width

omit [Field α] in
theorem Fits.size_le {batchsize : Nat} (fits : layer.Fits slot extent batchsize) : slot.size ≤ extent.size := by
  unfold Extent.size
  rw [fits.channels]
  exact Nat.mul_le_mul (Nat.mul_le_mul_left _ fits.height) fits.width

/-- A remainder that is taken of a positive number. -/
theorem randMod_ok (draw : Nat) {n : Int} (pos : 0 < n) : ∃ r : Int, randMod draw n = .ok r ∧ 0 ≤ r ∧ r < n := by
  refine ⟨(draw : Int).tmod n, if_neg pos.ne', ?_, ?_⟩
  · exact Int.tmod_nonneg n (Int.natCast_nonneg draw)
  · exact Int.tmod_lt_of_pos _ pos

omit [Field α] in
/-- The raw image is read within its rows. -/
theorem rawImage_eval {rid y x : Nat} (row : y < extent.channels * extent.height) (column : x < extent.width) :
    Access.Ends (Access.Sized (layer.bufferSize slot extent)) (layer.InSlot slot extent)
      ((rawImage extent).eval (some rid) y x : ImageProg α α) := by
  have bound : 0 + (y * extent.pitch + x) < extent.allocated := by
    rw [Nat.zero_add]
    exact place_lt row (lt_of_lt_of_le column (pitch_ge extent))
  exact .read_sized (rawImage_inSlot bound) bound

omit [Field α] in
/-- The rows that a crop reads. -/
theorem crop_row {cropsize hoff channels height y : Nat} (pos : 0 < cropsize) (offset : hoff + cropsize ≤ height)
    (row : y < channels * cropsize) : y / cropsize * height + (y % cropsize + hoff) < channels * height := by
  have channel : y / cropsize < channels := Nat.div_lt_of_lt_mul (by rwa [Nat.mul_comm])
  have line : y % cropsize + hoff < height := by
    have := Nat.mod_lt y pos
    omega
  exact place_lt channel line

omit [Field α] in
/-- Cropping into an image of the size of the crop. -/
theorem assignCrop_ends {batchsize : Nat} (fits : layer.Fits slot extent batchsize) (crops : layer.cropsize ≠ 0)
    {target : Image} (same : target.extent = slot) {rid hoff woff : Nat} (top : hoff + layer.cropsize ≤ extent.height)
    (left : woff + layer.cropsize ≤ extent.width)
    (target_in : ∀ y < slot.channels * slot.height, ∀ x < slot.width,
      layer.InSlot slot extent ⟨some rid, target.buffer, target.place y x⟩) :
    Access.Ends (Access.Sized (layer.bufferSize slot extent)) (layer.InSlot slot extent)
      (target.assignCrop (some rid) (rawImage extent) layer.cropsize hoff woff : ImageProg α Unit) := by
  obtain ⟨height, width⟩ := fits.crop crops
  unfold Image.assignCrop
  rw [if_neg (by show ¬ (extent.height < _ ∨ extent.width < _); omega)]
  apply assign_ends
  · rw [same]
    exact Extent.ext fits.channels.symm height.symm width.symm
  · rw [same]
    exact target_in
  · rw [same, fits.channels, height, width]
    intro y row x column
    exact rawImage_eval (crop_row (Nat.pos_of_ne_zero crops) top row) (by omega)

omit [Field α] in
/-- Mirroring an image of the same extent. -/
theorem assignMirror_ends {target source : Image} (same : source.extent = target.extent) {rid : Nat}
    (target_in : ∀ y < target.extent.channels * target.extent.height, ∀ x < target.extent.width,
      layer.InSlot slot extent ⟨some rid, target.buffer, target.place y x⟩)
    (source_in : ∀ y < target.extent.channels * target.extent.height, ∀ x < target.extent.width,
      layer.InSlot slot extent ⟨some rid, source.buffer, source.place y x⟩) :
    Access.Ends (Access.Sized (layer.bufferSize slot extent)) (layer.InSlot slot extent)
      (target.assignMirror (some rid) source : ImageProg α Unit) := by
  apply assign_ends same target_in
  intro y row x column
  have mirrored : source.extent.width - x - 1 < target.extent.width := by
    rw [same]
    omega
  exact .read_sized (source_in y row _ mirrored) (source_in y row _ mirrored).1

omit [Field α] in
/-- The places of the slot of a record. -/
theorem slot_places {batchsize rid : Nat} (fits : layer.Fits slot extent batchsize) (batch : rid < batchsize) :
    ∀ y < slot.channels * slot.height, ∀ x < slot.width,
      layer.InSlot slot extent ⟨some rid, .data, (image slot rid).place y x⟩ :=
  fun _ row _ column => image_inSlot fits.count batch (place_lt row column)

omit [Field α] in
theorem cropedImage_places (crops : layer.cropsize ≠ 0) (rid : Nat) :
    ∀ y < slot.channels * slot.height, ∀ x < slot.width,
      layer.InSlot slot extent ⟨some rid, .cropedImage, (cropedImage slot).place y x⟩ := by
  intro y row x column
  apply cropedImage_inSlot crops
  show 0 + (y * slot.pitch + x) < slot.allocated
  rw [Nat.zero_add]
  exact place_lt row (lt_of_lt_of_le column (pitch_ge slot))

omit [Field α] in
theorem rawImage_places (rid : Nat) : ∀ y < extent.channels * extent.height, ∀ x < extent.width,
    layer.InSlot slot extent ⟨some rid, .rawImage, (rawImage extent).place y x⟩ := by
  intro y row x column
  apply rawImage_inSlot
  show 0 + (y * extent.pitch + x) < extent.allocated
  rw [Nat.zero_add]
  exact place_lt row (lt_of_lt_of_le column (pitch_ge extent))

omit [Field α] in
/-- The whole record has room in the raw image. -/
theorem raw_room (rid : Nat) : ∀ i < extent.size, layer.InSlot slot extent ⟨some rid, .rawImage, 0 + i⟩ := by
  intro i bound
  rw [Nat.zero_add]
  exact rawImage_inSlot (lt_of_lt_of_le bound (size_le_allocated extent))

/-- A pass that crops, for an image that is larger than the crop both ways. -/
theorem parseImage_crops {batchsize rid : Nat} (fits : layer.Fits slot extent batchsize) (batch : rid < batchsize)
    {record : ImageRecord α} (whole : Whole extent record) (crops : layer.cropsize ≠ 0)
    (height : layer.cropsize < extent.height) (width : layer.cropsize < extent.width) (doMirror : Bool) (drawHeight drawWidth : Nat) :
    Access.Ends (Access.Sized (layer.bufferSize slot extent)) (layer.InSlot slot extent)
      (layer.parseImage slot extent rid record true doMirror drawHeight drawWidth) := by
  have pos : 0 < extent.size := lt_of_lt_of_le fits.pos fits.size_le
  obtain ⟨hoff, top, top_nonneg, top_lt⟩ :=
    randMod_ok drawHeight (n := (extent.height : Int) - layer.cropsize) (by omega)
  obtain ⟨woff, left, left_nonneg, left_lt⟩ :=
    randMod_ok drawWidth (n := (extent.width : Int) - layer.cropsize) (by omega)
  unfold parseImage
  simp only [Bool.true_or, if_true, top, left]
  refine .bind (copyRecord_ends whole pos (raw_room rid)) fun _ => ?_
  refine .bind (subtractMean_ends fun i bound => raw_room rid i ?_) fun _ => ?_
  · rw [fits.mean] at bound
    exact lt_of_lt_of_le bound fits.size_le
  have crop (target : Image) (same : target.extent = slot)
      (target_in : ∀ y < slot.channels * slot.height, ∀ x < slot.width,
        layer.InSlot slot extent ⟨some rid, target.buffer, target.place y x⟩) :
      Access.Ends (Access.Sized (layer.bufferSize slot extent)) (layer.InSlot slot extent)
        (target.assignCrop (some rid) (rawImage extent) layer.cropsize hoff.toNat woff.toNat : ImageProg α Unit) :=
    assignCrop_ends fits crops same (by omega) (by omega) target_in
  rw [Access.Prog.ofExcept_ok_bind, Access.Prog.ofExcept_ok_bind]
  cases doMirror with
  | true =>
    refine .bind (crop (cropedImage slot) rfl (cropedImage_places crops rid)) fun _ => ?_
    apply assignMirror_ends (show (cropedImage slot).extent = (image slot rid).extent from rfl)
    · exact slot_places fits batch
    · exact cropedImage_places crops rid
  | false => exact crop (image slot rid) rfl (slot_places fits batch)

/-- A pass that does not crop, for a slot that has the size of a record. -/
theorem parseImage_whole {batchsize rid : Nat} (fits : layer.Fits slot extent batchsize) (batch : rid < batchsize)
    {record : ImageRecord α} (whole : Whole extent record) (same : slot = extent) (doMirror : Bool)
    (drawHeight drawWidth : Nat) :
    Access.Ends (Access.Sized (layer.bufferSize slot extent)) (layer.InSlot slot extent)
      (layer.parseImage slot extent rid record false doMirror drawHeight drawWidth) := by
  have pos : 0 < extent.size := lt_of_lt_of_le fits.pos fits.size_le
  unfold parseImage
  cases doMirror with
  | true =>
    refine .bind (copyRecord_ends whole pos (raw_room rid)) fun _ => ?_
    refine .bind (subtractMean_ends fun i bound => raw_room rid i ?_) fun _ => ?_
    · rw [fits.mean] at bound
      exact lt_of_lt_of_le bound fits.size_le
    · refine assignMirror_ends same.symm (slot_places fits batch) ?_
      show ∀ y < slot.channels * slot.height, ∀ x < slot.width, _
      rw [same]
      exact rawImage_places rid
  | false =>
    have room : ∀ i < slot.size, layer.InSlot slot extent ⟨some rid, .data, (image slot rid).base + i⟩ :=
      fun i bound => image_inSlot fits.count batch bound
    refine .bind (copyRecord_ends whole pos fun i bound => room i (same ▸ bound)) fun _ => ?_
    refine .bind (subtractMean_ends fun i bound => room i ?_) fun _ => .pure ()
    rw [fits.mean] at bound
    exact bound

/-- A pass that crops divides by zero if the image is as high or as wide as the crop. -/
theorem parseImage_divZero {batchsize rid : Nat} (fits : layer.Fits slot extent batchsize) {record : ImageRecord α}
    (whole : Whole extent record) (exact_crop : extent.height = layer.cropsize ∨ extent.width = layer.cropsize)
    (height : layer.cropsize ≤ extent.height) (doMirror : Bool) (drawHeight drawWidth : Nat)
    {s : ImageBuffer → List α} (sized : Access.Sized (layer.bufferSize slot extent) s) :
    (layer.parseImage slot extent rid record true doMirror drawHeight drawWidth s).result = .error .divZero := by
  have pos : 0 < extent.size := lt_of_lt_of_le fits.pos fits.size_le
  have mean_room : ∀ i < layer.mean.count, layer.InSlot slot extent ⟨some rid, .rawImage, 0 + i⟩ := by
    intro i bound
    rw [fits.mean] at bound
    exact raw_room rid i (lt_of_lt_of_le bound fits.size_le)
  unfold parseImage
  simp only [Bool.true_or, if_true]
  obtain ⟨u, s', sized', same, -⟩ := (copyRecord_ends whole pos (raw_room rid)).next sized _
  rw [same]
  obtain ⟨u', s'', -, same', -⟩ := (subtractMean_ends mean_room).next sized' _
  rw [same']
  by_cases no_height : extent.height = layer.cropsize
  · have zero : randMod drawHeight ((extent.height : Int) - layer.cropsize) = .error .divZero := if_pos (by omega)
    rw [zero, Access.Prog.ofExcept_error_bind]
    rfl
  · obtain ⟨hoff, top, -⟩ := randMod_ok drawHeight (n := (extent.height : Int) - layer.cropsize) (by omega)
    have zero : randMod drawWidth ((extent.width : Int) - layer.cropsize) = .error .divZero :=
      if_pos (by have := exact_crop.resolve_left no_height; omega)
    rw [top, Access.Prog.ofExcept_ok_bind, zero, Access.Prog.ofExcept_error_bind]
    rfl

/-- A pass that does not crop writes past a slot that is smaller than a record. -/
theorem parseImage_overrun {batchsize rid : Nat} (fits : layer.Fits slot extent batchsize) (batch : rid < batchsize)
    {record : ImageRecord α} (whole : Whole extent record) (small : slot.size < extent.size) (drawHeight drawWidth : Nat)
    {s : ImageBuffer → List α} (sized : Access.Sized (layer.bufferSize slot extent) s) :
    ⟨some rid, .data, rid * slot.size + slot.size⟩ ∈
      (layer.parseImage slot extent rid record false false drawHeight drawWidth s).trace := by
  unfold parseImage
  apply Access.Prog.mem_trace_bind
  exact copyRecord_overrun whole (fun i bound => image_inSlot fits.count batch bound) small sized

/-! ## The batch -/

omit [Field α] in
/-- What `Setup` makes of the shape of the sample. -/
theorem setup_fits [Zero α] {scale : α} {cropsize batchsize : Nat} {mirror : Bool} {extent : Extent}
    {meanfile : Option (List α)} {layer : RGBImageLayer α}
    (ready : setup scale cropsize mirror batchsize [extent.channels, extent.height, extent.width] meanfile = .ok layer)
    (height : cropsize ≤ extent.height) (width : cropsize ≤ extent.width) :
    layer.cropsize = cropsize ∧ 0 < batchsize ∧
      layer.data.shape = [batchsize, (extent.croped cropsize).channels, (extent.croped cropsize).height,
        (extent.croped cropsize).width] ∧ layer.Fits (extent.croped cropsize) extent batchsize := by
  unfold setup at ready
  obtain ⟨data, made, ready⟩ := Run.do_ok.mp ready
  obtain ⟨mean, made_mean, ready⟩ := Run.do_ok.mp ready
  obtain ⟨data_pos, data_eq⟩ := LayerBlob.fresh_ok_iff.mp made
  obtain ⟨mean_pos, mean_eq⟩ := LayerBlob.fresh_ok_iff.mp made_mean
  have data_shape : data.shape = [batchsize, (extent.croped cropsize).channels, (extent.croped cropsize).height,
      (extent.croped cropsize).width] := by rw [data_eq]; rfl
  have mean_shape : mean.shape = [(extent.croped cropsize).channels, (extent.croped cropsize).height,
      (extent.croped cropsize).width] := by rw [mean_eq]; rfl
  have layer_eq : layer.cropsize = cropsize ∧
      layer.data.shape = [batchsize, (extent.croped cropsize).channels, (extent.croped cropsize).height,
        (extent.croped cropsize).width] ∧
      layer.mean.shape = [(extent.croped cropsize).channels, (extent.croped cropsize).height,
        (extent.croped cropsize).width] := by
    cases meanfile with
    | none =>
      cases ready
      exact ⟨rfl, data_shape, mean_shape⟩
    | some values =>
      dsimp only at ready
      split at ready
      · cases ready
      · next same =>
        obtain ⟨mean', stored, ready⟩ := Run.do_ok.mp ready
        obtain ⟨mean'', stored', shape, -⟩ := LayerBlob.store_all rfl (not_not.mp same).le
        rw [stored] at stored'
        cases stored'
        cases ready
        exact ⟨rfl, data_shape, shape.trans mean_shape⟩
  obtain ⟨crop, data_shape, mean_shape⟩ := layer_eq
  have mean_count : layer.mean.count = (extent.croped cropsize).size := by
    rw [LayerBlob.count, mean_shape]
    simp [Extent.size, Nat.mul_assoc]
  have size_pos : 0 < (extent.croped cropsize).size := by
    rw [← mean_count, LayerBlob.count, mean_shape]
    apply List.prod_pos
    intro d mem
    apply Nat.pos_of_ne_zero
    rintro rfl
    exact mean_pos mem
  refine ⟨crop, Nat.pos_of_ne_zero fun zero => data_pos (by rw [zero]; exact List.mem_cons_self), data_shape, ?_⟩
  refine ⟨?_, mean_count, rfl, size_pos, ?_, ?_, ?_, ?_⟩
  · rw [LayerBlob.count, data_shape]
    simp [Extent.size, Nat.mul_assoc]
  · intro none
    rw [← crop, none]
    rfl
  · intro crops
    rw [crop] at crops
    exact ⟨by rw [crop]; exact if_pos crops, by rw [crop]; exact if_pos crops⟩
  · show (if cropsize ≠ 0 then cropsize else extent.height) ≤ extent.height
    split <;> omega
  · show (if cropsize ≠ 0 then cropsize else extent.width) ≤ extent.width
    split <;> omega

/-- A batch is parsed as it should if every record is. -/
theorem parsesInSlots_of_ends [DecidableEq α] {batchsize : Nat} {phase : Phase} {draws : Nat → Nat}
    {records : List (ImageRecord α)}
    (pos : 0 < records.length) (shape : layer.data.shape = [batchsize, slot.channels, slot.height, slot.width])
    (whole : ∀ record ∈ records, Whole extent record)
    (pass : ∀ rid, ∀ record ∈ records, rid < records.length → ∀ k,
      Access.Ends (Access.Sized (layer.bufferSize slot extent)) (layer.InSlot slot extent)
        (layer.parseRecord slot extent phase draws rid record k)) :
    layer.ParsesInSlots slot extent phase draws records := by
  intro s sized
  obtain ⟨first, rest, rfl⟩ := List.exists_cons_of_length_pos pos
  have ends : Access.Ends (Access.Sized (layer.bufferSize slot extent)) (layer.InSlot slot extent)
      (layer.parseRecords phase draws (first :: rest)) := by
    unfold parseRecords
    rw [List.head?_cons, Option.map_some, (whole first List.mem_cons_self).shape, shape]
    refine .bind (.foldlM ?_ 0) fun _ => ?_
    · rintro ⟨record, rid⟩ mem k
      obtain ⟨bound, value⟩ := List.mem_zipIdx' mem
      exact pass rid record (value ▸ List.getElem_mem bound) bound k
    · split
      · refine .each fun i mem => ?_
        have bound := List.mem_range.mp mem
        have within : layer.InSlot slot extent ⟨none, .data, i⟩ := ⟨bound, fun _ batch => by cases batch⟩
        exact .bind (.read_sized within bound) fun v => .write_sized within bound
      · exact .pure ()
  obtain ⟨⟨u, returned⟩, -, allowed⟩ := ends s sized
  exact ⟨by rw [returned]; exact fun divided => (by cases divided), allowed⟩

/-- The first record is parsed first. -/
theorem parseRecords_first [DecidableEq α] (phase : Phase) (draws : Nat → Nat) {batchsize : Nat}
    {first : ImageRecord α} (whole : Whole extent first) (rest : List (ImageRecord α))
    (shape : layer.data.shape = [batchsize, slot.channels, slot.height, slot.width]) (s : ImageBuffer → List α) :
    ∃ doMirror drawHeight drawWidth, (phase ≠ .kTrain → doMirror = false) ∧
      let doCrop : Bool := 0 < layer.cropsize ∧ phase = .kTrain
      let pass := layer.parseImage slot extent 0 first doCrop doMirror drawHeight drawWidth s
      (∀ e, pass.result = .error e → (layer.parseRecords phase draws (first :: rest) s).result = .error e) ∧
        ∀ x ∈ pass.trace, x ∈ (layer.parseRecords phase draws (first :: rest) s).trace := by
  refine ⟨decide (layer.mirror ∧ draws 0 % 2 ≠ 0 ∧ phase = .kTrain), draws (if layer.mirror then 1 else 0),
    draws ((if layer.mirror then 1 else 0) + 1), ?_, ?_⟩
  · intro other
    simp [other]
  · dsimp only
    unfold parseRecords
    rw [List.head?_cons, Option.map_some, whole.shape, shape]
    dsimp only
    constructor
    · intro e stopped
      have record : (layer.parseRecord slot extent phase draws 0 first 0 s).result = .error e := by
        unfold parseRecord
        rw [Access.Prog.bind_error stopped]
      rw [List.zipIdx_cons, List.foldlM_cons, Access.Prog.bind_error]
      rw [Access.Prog.bind_error record]
    · intro x mem
      have record : x ∈ (layer.parseRecord slot extent phase draws 0 first 0 s).trace := by
        unfold parseRecord
        exact Access.Prog.mem_trace_bind _ mem
      apply Access.Prog.mem_trace_bind
      rw [List.zipIdx_cons, List.foldlM_cons]
      exact Access.Prog.mem_trace_bind _ record

omit [Field α] in
/-- The slot of a croped image is smaller than a record, unless the crop is the whole image. -/
theorem croped_small {cropsize : Nat} (crops : cropsize ≠ 0) (pos : 0 < extent.size) (height : cropsize ≤ extent.height)
    (width : cropsize ≤ extent.width) (smaller : cropsize < extent.height ∨ cropsize < extent.width) :
    (extent.croped cropsize).size < extent.size := by
  have channels : 0 < extent.channels := by
    rw [Nat.pos_iff_ne_zero]
    intro zero
    rw [Extent.size, zero, Nat.zero_mul, Nat.zero_mul] at pos
    exact absurd pos (lt_irrefl 0)
  have size : (extent.croped cropsize).size = extent.channels * (cropsize * cropsize) := by
    simp [Extent.croped, Extent.size, crops, Nat.mul_assoc]
  rw [size, Extent.size, Nat.mul_assoc]
  apply Nat.mul_lt_mul_of_pos_left _ channels
  rcases smaller with less | less
  · exact lt_of_lt_of_le (Nat.mul_lt_mul_of_pos_right less (Nat.pos_of_ne_zero crops)) (Nat.mul_le_mul_left _ width)
  · exact lt_of_lt_of_le (Nat.mul_lt_mul_of_pos_left less (Nat.pos_of_ne_zero crops)) (Nat.mul_le_mul_right _ height)

/-- **Parsing images stays in the slots** exactly if there is no cropping, or a training pass crops images that
are larger than the crop both ways, or the crop of another pass is the whole image. -/
theorem parsesInSlots_iff [DecidableEq α] {scale : α} {cropsize batchsize : Nat} {mirror : Bool} {extent : Extent}
    {meanfile : Option (List α)} {layer : RGBImageLayer α}
    (ready : setup scale cropsize mirror batchsize [extent.channels, extent.height, extent.width] meanfile = .ok layer)
    (height : cropsize ≤ extent.height) (width : cropsize ≤ extent.width) {records : List (ImageRecord α)}
    (batch : records.length = batchsize) (whole : ∀ record ∈ records, Whole extent record) (phase : Phase)
    (draws : Nat → Nat) :
    layer.ParsesInSlots (extent.croped cropsize) extent phase draws records ↔
      cropsize = 0 ∨ phase = .kTrain ∧ cropsize < extent.height ∧ cropsize < extent.width ∨
        phase ≠ .kTrain ∧ cropsize = extent.height ∧ cropsize = extent.width := by
  obtain ⟨rfl, pos, shape, fits⟩ := setup_fits ready height width
  subst batch
  constructor
  · intro parses
    by_contra fails
    push Not at fails
    obtain ⟨crops, train, other⟩ := fails
    obtain ⟨first, rest, rfl⟩ := List.exists_cons_of_length_pos pos
    have first_whole := whole first List.mem_cons_self
    let s : ImageBuffer → List α := fun b => List.replicate (layer.bufferSize (extent.croped layer.cropsize) extent b) 0
    have sized : Access.Sized (layer.bufferSize (extent.croped layer.cropsize) extent) s :=
      fun b => List.length_replicate
    obtain ⟨no_division, in_slots⟩ := parses s sized
    obtain ⟨doMirror, drawHeight, drawWidth, no_mirror, stops, listed⟩ :=
      parseRecords_first phase draws first_whole rest shape s
    by_cases training : phase = .kTrain
    · have doCrop : decide (0 < layer.cropsize ∧ phase = .kTrain) = true :=
        decide_eq_true ⟨Nat.pos_of_ne_zero crops, training⟩
      rw [doCrop] at stops
      apply no_division
      apply stops
      apply parseImage_divZero fits first_whole _ height doMirror drawHeight drawWidth sized
      have := train training
      omega
    · have doCrop : decide (0 < layer.cropsize ∧ phase = .kTrain) = false :=
        decide_eq_false fun h => training h.2
      rw [doCrop, no_mirror training] at listed
      have size_pos : 0 < extent.size := lt_of_lt_of_le fits.pos fits.size_le
      have small : (extent.croped layer.cropsize).size < extent.size := by
        apply croped_small crops size_pos height width
        have := other training
        omega
      have overrun := listed _ (parseImage_overrun fits pos first_whole small drawHeight drawWidth sized)
      have bound := ((in_slots _ overrun).2 0 rfl rfl).2
      dsimp only at bound
      omega
  · intro condition
    apply parsesInSlots_of_ends pos shape whole
    intro rid record mem batch k
    unfold parseRecord
    refine .bind ?_ fun _ => .pure _
    rcases condition with none | ⟨training, height', width'⟩ | ⟨other, height', width'⟩
    · have doCrop : decide (0 < layer.cropsize ∧ phase = .kTrain) = false :=
        decide_eq_false fun h => by omega
      rw [doCrop]
      exact parseImage_whole fits batch (whole record mem) (fits.whole none) _ _ _
    · by_cases none : layer.cropsize = 0
      · have doCrop : decide (0 < layer.cropsize ∧ phase = .kTrain) = false :=
          decide_eq_false fun h => by omega
        rw [doCrop]
        exact parseImage_whole fits batch (whole record mem) (fits.whole none) _ _ _
      · have doCrop : decide (0 < layer.cropsize ∧ phase = .kTrain) = true :=
          decide_eq_true ⟨Nat.pos_of_ne_zero none, training⟩
        rw [doCrop]
        exact parseImage_crops fits batch (whole record mem) none height' width' _ _ _
    · have doCrop : decide (0 < layer.cropsize ∧ phase = .kTrain) = false :=
        decide_eq_false fun h => other h.2
      rw [doCrop]
      have same : extent.croped layer.cropsize = extent := by
        by_cases none : layer.cropsize = 0
        · exact fits.whole none
        · obtain ⟨top, left⟩ := fits.crop none
          exact Extent.ext rfl (top.trans height') (left.trans width')
      exact parseImage_whole fits batch (whole record mem) same _ _ _

/-- An image of one pixel. -/
def onePixel : ImageRecord ℚ := ⟨[1, 1, 1], [7], []⟩

/-- An image of two by two floats. -/
def fourFloats : ImageRecord ℚ := ⟨[1, 2, 2], [], [1, 2, 3, 4]⟩

theorem fourFloats_whole : Whole ⟨1, 2, 2⟩ fourFloats := ⟨rfl, .inr ⟨rfl, rfl⟩⟩

/-- Buffers of zeros for the images above. -/
def zeros (data rawImage : Nat) : ImageBuffer → List ℚ
  | .data => List.replicate data 0
  | .rawImage => List.replicate rawImage 0
  | .cropedImage => List.replicate 4 0
  | .mean => [0]

/-- A training pass divides by zero if the crop is the image, and a test pass writes an image into the slot of
a crop and beyond. -/
theorem not_parsesInSlots :
    (∃ layer : RGBImageLayer ℚ, setup 1 1 false 1 [1, 1, 1] none = .ok layer ∧ Whole ⟨1, 1, 1⟩ onePixel ∧
      ¬ layer.ParsesInSlots (Extent.croped ⟨1, 1, 1⟩ 1) ⟨1, 1, 1⟩ .kTrain (fun _ => 0) [onePixel]) ∧
    ∃ layer : RGBImageLayer ℚ, setup 1 1 false 2 [1, 2, 2] none = .ok layer ∧ Whole ⟨1, 2, 2⟩ fourFloats ∧
      ¬ layer.ParsesInSlots (Extent.croped ⟨1, 2, 2⟩ 1) ⟨1, 2, 2⟩ .kTest (fun _ => 0) [fourFloats, fourFloats] := by
  refine ⟨⟨⟨1, 1, false, ⟨[1, 1, 1, 1], [0], rfl⟩, ⟨[1, 1, 1], [0], rfl⟩⟩, rfl, ⟨rfl, .inl rfl⟩, fun parses => ?_⟩,
    ⟨⟨1, 1, false, ⟨[2, 1, 1, 1], [0, 0], rfl⟩, ⟨[1, 1, 1], [0], rfl⟩⟩, rfl, fourFloats_whole, fun parses => ?_⟩⟩
  · have sized : Access.Sized (bufferSize (⟨1, 1, false, ⟨[1, 1, 1, 1], [0], rfl⟩, ⟨[1, 1, 1], [0], rfl⟩⟩ :
        RGBImageLayer ℚ) (Extent.croped ⟨1, 1, 1⟩ 1) ⟨1, 1, 1⟩)
        (zeros 1 4) := by
      intro b
      cases b <;> rfl
    exact (parses _ sized).1 (by decide +kernel)
  · have sized : Access.Sized (bufferSize (⟨1, 1, false, ⟨[2, 1, 1, 1], [0, 0], rfl⟩, ⟨[1, 1, 1], [0], rfl⟩⟩ :
        RGBImageLayer ℚ) (Extent.croped ⟨1, 2, 2⟩ 1) ⟨1, 2, 2⟩)
        (zeros 2 8) := by
      intro b
      cases b <;> rfl
    have written := (parses _ sized).2 ⟨some 0, .data, 1⟩ (by decide +kernel)
    exact absurd (written.2 0 rfl rfl).2 (by decide)

/-- A training pass that crops two by two floats to one, whatever is drawn. -/
theorem fourFloats_parsesInSlots :
    ∃ layer : RGBImageLayer ℚ, setup 1 1 true 2 [1, 2, 2] none = .ok layer ∧
      ∀ draws, layer.ParsesInSlots (Extent.croped ⟨1, 2, 2⟩ 1) ⟨1, 2, 2⟩ .kTrain draws [fourFloats, fourFloats] := by
  have ready : setup (1 : ℚ) 1 true 2 [(Extent.mk 1 2 2).channels, (Extent.mk 1 2 2).height, (Extent.mk 1 2 2).width]
      none = .ok ⟨1, 1, true, ⟨[2, 1, 1, 1], [0, 0], rfl⟩, ⟨[1, 1, 1], [0], rfl⟩⟩ := rfl
  refine ⟨_, ready, fun draws => ?_⟩
  have whole : ∀ record ∈ [fourFloats, fourFloats], Whole ⟨1, 2, 2⟩ record := by
    intro record mem
    rw [List.mem_pair, or_self] at mem
    rw [mem]
    exact fourFloats_whole
  exact (parsesInSlots_iff ready (by decide) (by decide) rfl whole .kTrain draws).mpr
    (.inr (.inl ⟨rfl, by decide, by decide⟩))

end RGBImageLayer
end Singa
