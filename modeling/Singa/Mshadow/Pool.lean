import Singa.Mshadow.Patch

/-!
# Borders, pools and neighbouring channels

`crop` is the transpose of `pad`, and `chpool` with sums is its own transpose. A
pool with sums adds up a patch, a pool with maxima finds the largest element.
-/

namespace Singa.Mshadow
set_option autoImplicit false

open Finset Patches

variable {α : Type} {height width : ℕ}

/-! ## Borders -/

section Border

variable {border : ℕ}

/-- Inside the border is the image. -/
theorem pad_at [Zero α] (src : Exp α) {c y x : ℕ} (row : y < height + border * 2) :
    Exp.pad border height width src (c * (height + border * 2) + y) x =
      if (border ≤ y ∧ y < border + height) ∧ border ≤ x ∧ x < border + width
      then src (c * height + (y - border)) (x - border) else 0 := by
  unfold Exp.pad
  dsimp only
  rw [Grid.number_mod row, Grid.number_div row]
  split_ifs <;> first | rfl | omega

/-- Through the places inside the border. -/
theorem sum_inside {M : Type} [AddCommMonoid M] (border size : ℕ) (f : ℕ → M) :
    (∑ y ∈ range (size + border * 2), if border ≤ y ∧ y < border + size then f (y - border) else 0) = ∑ y ∈ range size, f y := by
  have inside : 1 * border + size ≤ size + border * 2 := by omega
  have patch := sum_patch inside f
  rwa [one_mul] at patch

/-- **`crop` is the transpose of `pad`.** -/
theorem crop_transposed [CommSemiring α] (images : ℕ) (src m : Exp α) :
    Exp.pairing (images * (height + border * 2)) (width + border * 2) m (Exp.pad border height width src) =
      Exp.pairing (images * height) width
        (Exp.crop (height + border * 2) (width + border * 2) height width m) src := by
  unfold Exp.pairing
  rw [sum_images, sum_images]
  refine sum_congr rfl fun c _ => ?_
  set f : ℕ → ℕ → α := fun y x => m (c * (height + border * 2) + (y + border)) (x + border) * src (c * height + y) x with f_eq
  have cropped : ∀ y ∈ range height, ∀ x ∈ range width,
      Exp.crop (height + border * 2) (width + border * 2) height width m (c * height + y) x * src (c * height + y) x =
        f y x := by
    intro y row x _
    have margin : ∀ size, (size + border * 2 - size) / 2 = border := fun size => by omega
    unfold Exp.crop
    dsimp only
    rw [Grid.number_mod (mem_range.mp row), Grid.number_div (mem_range.mp row), margin, margin]
  rw [sum_congr rfl fun y row => sum_congr rfl (cropped y row), ← sum_inside border height fun y =>
    ∑ x ∈ range width, f y x]
  refine sum_congr rfl fun y row => ?_
  rw [sum_congr rfl fun x _ => congrArg _ (pad_at src (mem_range.mp row))]
  split
  · next inside =>
    rw [← sum_inside border width fun x => f (y - border) x]
    refine sum_congr rfl fun x _ => ?_
    by_cases column : border ≤ x ∧ x < border + width
    · rw [if_pos ⟨inside, column⟩, if_pos column, f_eq]
      dsimp only
      rw [Nat.sub_add_cancel inside.1, Nat.sub_add_cancel column.1]
    · rw [if_neg fun h => column h.2, if_neg column, mul_zero]
  · next outside =>
    refine sum_eq_zero fun x _ => ?_
    rw [if_neg fun h => outside h.1, mul_zero]

end Border

/-! ## Neighbouring channels -/

section Channels

variable {nsize channel : ℕ}

theorem chpool_mul [CommSemiring α] (a : α) (src : Exp α) (i j : ℕ) :
    Exp.chpool Reducer.sum nsize channel height (fun i j => a * src i j) i j =
      a * Exp.chpool Reducer.sum nsize channel height src i j := by
  unfold Exp.chpool
  dsimp only
  show loop _ _ (fun res cc => res + a * src _ j) 0 = a * loop _ _ (fun res cc => res + src _ j) 0
  rw [loop_add, loop_add, zero_add, zero_add, mul_sum]

/-- The channels that `chpool` adds up are those at a distance of at most `nsize / 2`. -/
theorem chpool_at [AddCommMonoid α] [One α] (src : Exp α) {n c y x : ℕ} (channelLt : c < channel) (row : y < height) :
    Exp.chpool Reducer.sum nsize channel height src ((n * channel + c) * height + y) x =
      ∑ cc ∈ range channel, if c ≤ cc + nsize / 2 ∧ cc ≤ c + nsize / 2 then src ((n * channel + cc) * height + y) x else 0 := by
  unfold Exp.chpool
  dsimp only
  rw [Grid.number_mod row, Grid.number_div row, Grid.number_mod channelLt, Grid.number_div channelLt]
  show loop _ _ (fun res cc => res + src ((n * channel + cc) * height + y) x) 0 = _
  rw [loop_add, zero_add, ← sum_filter]
  refine sum_congr ?_ fun _ _ => rfl
  ext cc
  rw [mem_Ico, mem_filter, mem_range]
  split <;> omega

/-- **`chpool` with sums is its own transpose**: the neighbourhood is symmetric. -/
theorem chpool_transposed [CommSemiring α] (images : ℕ) (g d : Exp α) :
    Exp.pairing (images * channel * height) width g (Exp.chpool Reducer.sum nsize channel height d) =
      Exp.pairing (images * channel * height) width (Exp.chpool Reducer.sum nsize channel height g) d := by
  unfold Exp.pairing
  rw [sum_images, sum_images, Pairing.sum_grid, Pairing.sum_grid]
  refine sum_congr rfl fun n _ => ?_
  have spread : ∀ c ∈ range channel, (∑ y ∈ range height, ∑ x ∈ range width, g ((n * channel + c) * height + y) x *
        Exp.chpool Reducer.sum nsize channel height d ((n * channel + c) * height + y) x) =
      ∑ cc ∈ range channel, ∑ y ∈ range height, ∑ x ∈ range width, if c ≤ cc + nsize / 2 ∧ cc ≤ c + nsize / 2
        then g ((n * channel + c) * height + y) x * d ((n * channel + cc) * height + y) x else 0 := by
    intro c channelLt
    rw [← sum_rotate]
    refine sum_congr rfl fun y row => sum_congr rfl fun x _ => ?_
    rw [chpool_at d (mem_range.mp channelLt) (mem_range.mp row), mul_sum]
    exact sum_congr rfl fun cc _ => by rw [mul_ite, mul_zero]
  have gather : ∀ c ∈ range channel, (∑ y ∈ range height, ∑ x ∈ range width,
        Exp.chpool Reducer.sum nsize channel height g ((n * channel + c) * height + y) x * d ((n * channel + c) * height + y) x) =
      ∑ cc ∈ range channel, ∑ y ∈ range height, ∑ x ∈ range width, if c ≤ cc + nsize / 2 ∧ cc ≤ c + nsize / 2
        then g ((n * channel + cc) * height + y) x * d ((n * channel + c) * height + y) x else 0 := by
    intro c channelLt
    rw [← sum_rotate]
    refine sum_congr rfl fun y row => sum_congr rfl fun x _ => ?_
    rw [chpool_at g (mem_range.mp channelLt) (mem_range.mp row), sum_mul]
    exact sum_congr rfl fun cc _ => by rw [ite_mul, zero_mul]
  rw [sum_congr rfl spread, sum_congr rfl gather, sum_comm]
  exact sum_congr rfl fun c _ => sum_congr rfl fun cc _ => sum_congr rfl fun y _ => sum_congr rfl fun x _ =>
    if_congr and_comm rfl rfl

end Channels

/-! ## Pools -/

section Pools

variable {ksize kstride : ℕ}

/-- A pool is a loop over a patch. -/
theorem pool_at (r : Reducer α) (fitsHeight : ksize ≤ height) (fitsWidth : ksize ≤ width) (src : Exp α) {c py px : ℕ}
    (row : py < (height - ksize) / kstride + 1) (column : px < (width - ksize) / kstride + 1) :
    Exp.pool r ksize kstride height width src (c * ((height - ksize) / kstride + 1) + py) px =
      loop (py * kstride) (py * kstride + ksize) (fun res y =>
        loop (px * kstride) (px * kstride + ksize) (fun res x => r.reduce res (src (c * height + y) x)) res) r.initV := by
  unfold Exp.pool
  dsimp only
  rw [Grid.number_mod row, Grid.number_div row, min_eq_left (patch_inside fitsHeight row),
    min_eq_left (patch_inside fitsWidth column)]

/-- A pool with sums. -/
theorem pool_sum [AddCommMonoid α] [One α] (fitsHeight : ksize ≤ height) (fitsWidth : ksize ≤ width) (src : Exp α)
    {c py px : ℕ} (row : py < (height - ksize) / kstride + 1) (column : px < (width - ksize) / kstride + 1) :
    Exp.pool Reducer.sum ksize kstride height width src (c * ((height - ksize) / kstride + 1) + py) px =
      ∑ dy ∈ range ksize, ∑ dx ∈ range ksize, src (c * height + (py * kstride + dy)) (px * kstride + dx) := by
  rw [pool_at Reducer.sum fitsHeight fitsWidth src row column]
  show loop _ _ (fun res y => loop _ _ (fun res x => res + src (c * height + y) x) res) 0 = _
  rw [loop_add_loop, zero_add, sum_Ico_eq_sum_range, Nat.add_sub_cancel_left]
  refine sum_congr rfl fun dy _ => ?_
  rw [sum_Ico_eq_sum_range, Nat.add_sub_cancel_left]

section Maximum

variable [LinearOrder α]

theorem loop_max (start stop : ℕ) (f : ℕ → α) (s : α) :
    let res := loop start stop (fun res i => max res (f i)) s
    s ≤ res ∧ (∀ i, start ≤ i → i < stop → f i ≤ res) ∧ (res = s ∨ ∃ i, start ≤ i ∧ i < stop ∧ res = f i) := by
  unfold loop
  dsimp only
  obtain ⟨n, length⟩ : ∃ n, n = stop - start := ⟨_, rfl⟩
  rw [← length]
  induction n generalizing start s with
  | zero => exact ⟨le_rfl, fun i low high => by omega, .inl rfl⟩
  | succ n ih =>
    rw [List.range'_succ, List.foldl_cons]
    obtain ⟨above, all, found⟩ := ih (start + 1) (max s (f start)) (by omega)
    refine ⟨(le_max_left _ _).trans above, fun i low high => ?_, ?_⟩
    · rcases Nat.eq_or_lt_of_le low with rfl | later
      · exact (le_max_right _ _).trans above
      · exact all i later high
    · rcases found with same | ⟨i, low, high, same⟩
      · rcases max_choice s (f start) with old | new
        · exact .inl (same.trans old)
        · exact .inr ⟨start, le_rfl, by omega, same.trans new⟩
      · exact .inr ⟨i, by omega, high, same⟩

theorem loop_max_loop (start stop start' stop' : ℕ) (f : ℕ → ℕ → α) (s : α) :
    let res := loop start stop (fun res i => loop start' stop' (fun res j => max res (f i j)) res) s
    s ≤ res ∧ (∀ i j, start ≤ i → i < stop → start' ≤ j → j < stop' → f i j ≤ res) ∧
      (res = s ∨ ∃ i j, start ≤ i ∧ i < stop ∧ start' ≤ j ∧ j < stop' ∧ res = f i j) := by
  unfold loop
  dsimp only
  obtain ⟨n, length⟩ : ∃ n, n = stop - start := ⟨_, rfl⟩
  rw [← length]
  induction n generalizing start s with
  | zero => exact ⟨le_rfl, fun i j low high => by omega, .inl rfl⟩
  | succ n ih =>
    rw [List.range'_succ, List.foldl_cons]
    obtain ⟨own, row, inRow⟩ := loop_max start' stop' (f start) s
    obtain ⟨above, all, found⟩ := ih (start + 1) (loop start' stop' (fun res j => max res (f start j)) s) (by omega)
    refine ⟨own.trans above, fun i j low high low' high' => ?_, ?_⟩
    · rcases Nat.eq_or_lt_of_le low with rfl | later
      · exact (row j low' high').trans above
      · exact all i j later high low' high'
    · rcases found with same | ⟨i, j, low, high, low', high', same⟩
      · rcases inRow with old | ⟨j, low', high', new⟩
        · exact .inl (same.trans old)
        · exact .inr ⟨start, j, le_rfl, by omega, low', high', same.trans new⟩
      · exact .inr ⟨i, j, by omega, high, low', high', same⟩

/-- **A pool with maxima**: the largest element of the patch, unless all are below `-FLT_MAX`. -/
theorem pool_maximum [Zero α] [One α] [Neg α] (fltMax : α) (fitsHeight : ksize ≤ height) (fitsWidth : ksize ≤ width)
    (src : Exp α) {c py px : ℕ} (row : py < (height - ksize) / kstride + 1) (column : px < (width - ksize) / kstride + 1) :
    let res := Exp.pool (Reducer.maximum fltMax) ksize kstride height width src (c * ((height - ksize) / kstride + 1) + py) px;
    -fltMax ≤ res ∧
      (∀ dy < ksize, ∀ dx < ksize, src (c * height + (py * kstride + dy)) (px * kstride + dx) ≤ res) ∧
      (res = -fltMax ∨ ∃ dy < ksize, ∃ dx < ksize, res = src (c * height + (py * kstride + dy)) (px * kstride + dx)) := by
  dsimp only
  rw [pool_at (Reducer.maximum fltMax) fitsHeight fitsWidth src row column]
  obtain ⟨above, all, found⟩ := loop_max_loop (py * kstride) (py * kstride + ksize) (px * kstride) (px * kstride + ksize)
    (fun y x => src (c * height + y) x) (-fltMax)
  refine ⟨above, fun dy low dx low' => all _ _ (by omega) (by omega) (by omega) (by omega), found.imp_right ?_⟩
  rintro ⟨y, x, low, high, low', high', same⟩
  refine ⟨y - py * kstride, by omega, x - px * kstride, by omega, ?_⟩
  rw [Nat.add_sub_cancel' low, Nat.add_sub_cancel' low']
  exact same

end Maximum
end Pools
end Singa.Mshadow
