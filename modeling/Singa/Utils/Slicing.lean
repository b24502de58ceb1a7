import Singa.Base.CutFit
import Singa.Utils.Common

/-!
# What `Slice` and `PartitionSlices` return

`Slice` always ends and cuts every size into positive pieces that add up to it.
`PartitionSlices` is a next-fit packing: when it returns, the box ids are
non-decreasing, one for each slice, and they stay below `num` exactly when the
slices can be cut, in order, into `num` runs that one box holds.
-/

namespace Singa
set_option autoImplicit false

theorem gcd_eq (a b : Nat) : gcd a b = Nat.gcd a b := by
  induction a using Nat.strongRecOn generalizing b with
  | ind a ih =>
    unfold gcd
    split
    · rename_i zero
      simp [zero]
    · split
      · rename_i divides
        exact (Nat.gcd_eq_left (Nat.dvd_of_mod_eq_zero divides)).symm
      · have less := Nat.mod_lt b (y := a) (by omega)
        have less' := Nat.mod_lt a (y := b % a) (by omega)
        rw [ih _ (by omega), ← Nat.gcd_rec (b % a) a, ← Nat.gcd_rec a b]

theorem leastCommonMultiple_pos {a b : Nat} (ha : 0 < a) (hb : 0 < b) : 0 < leastCommonMultiple a b := by
  have pos : 0 < Nat.gcd a b := Nat.gcd_pos_of_pos_left b ha
  unfold leastCommonMultiple
  rw [gcd_eq, if_neg (by omega)]
  exact Nat.mul_pos (Nat.div_pos (Nat.gcd_le_left b ha) pos) hb

theorem asInt_of_lt {n : Nat} (small : n < 2 ^ 31) : asInt n = .ok n := if_pos small

theorem asInt_of_not_lt {n : Nat} (wide : ¬ n < 2 ^ 31) : asInt n = .error .overflow := if_neg wide

/-- The sizes can be added up exactly if their total is an `int`. -/
theorem addSizes_eq (sizes : List Nat) : addSizes sizes = asInt sizes.sum := by
  have from_avg (avg : Nat) (low : avg < 2 ^ 31) :
      sizes.foldlM (fun avg x => asInt (avg + x)) avg = asInt (avg + sizes.sum) := by
    induction sizes generalizing avg with
    | nil => exact (asInt_of_lt low).symm
    | cons x sizes ih =>
      rw [List.foldlM_cons, List.sum_cons, ← Nat.add_assoc]
      by_cases small : avg + x < 2 ^ 31
      · rw [asInt_of_lt small]
        exact ih _ small
      · rw [asInt_of_not_lt small, asInt_of_not_lt (by omega)]
        rfl
  rw [addSizes, from_avg 0 (by decide), Nat.zero_add]

/-- A box that is smaller than the total has with its tolerance less than 2 GiB too. -/
theorem average_add_tenth_lt {num : Nat} {sizes : List Nat} (small : sizes.sum < 2 ^ 31)
    (part : average num sizes < sizes.sum) : average num sizes + average num sizes / 10 < 2 ^ 31 := by
  unfold average at part ⊢
  have split := Nat.div_add_mod sizes.sum num
  generalize sizes.sum / num = q at split part ⊢
  rcases Nat.eq_zero_or_pos num with rfl | pos
  · simp only [Nat.zero_mul, Nat.mod_zero] at split part
    omega
  have rest := Nat.mod_lt sizes.sum pos
  generalize sizes.sum % num = r at split part rest ⊢
  -- at least two boxes, and at least one unit for each
  obtain ⟨k, rfl⟩ : ∃ k, num = k + 2 := by
    refine ⟨num - 2, ?_⟩
    by_contra one
    obtain rfl : num = 1 := by omega
    omega
  obtain ⟨p, rfl⟩ : ∃ p, q = p + 1 := by
    refine ⟨q - 1, ?_⟩
    by_contra none
    obtain rfl : q = 0 := by omega
    omega
  have half : 2 * (p + 1 + r) ≤ sizes.sum + 1 := by nlinarith [Nat.zero_le (p * k)]
  omega

theorem average_pos {num : Nat} {sizes : List Nat} (pos : 0 < sizes.sum) : 0 < average num sizes := by
  unfold average
  have split := Nat.div_add_mod sizes.sum num
  by_cases zero : sizes.sum / num = 0
  · rw [zero] at split
    omega
  · have := Nat.pos_of_ne_zero zero
    exact Nat.add_pos_left this _

/-! ## Cutting one parameter -/

/-- The four ways a pass of the `while` loop goes on. -/
theorem Slicer.body_inl {avg diff : Nat} {s s' : Slicer} (h : s.body avg diff = .inl s') :
    0 < s.x ∧
      ((s' = ⟨s.capacity - s.x, s.nbox, 0, pushSize s.slice s.x⟩ ∧ s.x ≤ s.capacity) ∨
       (s' = ⟨0, s.nbox, 0, pushSize s.slice s.x⟩ ∧ s.capacity < s.x ∧ s.x ≤ s.capacity + diff) ∨
       (s' = ⟨avg, s.nbox + 1, s.x - s.capacity, pushSize s.slice s.capacity⟩ ∧
          s.capacity + diff < s.x ∧ diff ≤ s.capacity) ∨
       (s' = ⟨avg, s.nbox + 1, s.x, s.slice⟩ ∧ s.capacity + diff < s.x ∧ s.capacity < diff)) := by
  unfold Slicer.body at h
  split at h
  · cases h
  · refine ⟨by omega, ?_⟩
    split at h
    · cases h
      exact .inl ⟨rfl, by assumption⟩
    · split at h
      · cases h
        exact .inr (.inl ⟨rfl, by omega, by assumption⟩)
      · split at h
        · cases h
          exact .inr (.inr (.inl ⟨rfl, by omega, by assumption⟩))
        · cases h
          exact .inr (.inr (.inr ⟨rfl, by omega, by omega⟩))

theorem Slicer.body_inr {avg diff : Nat} {s r : Slicer} (h : s.body avg diff = .inr r) : r = s ∧ s.x = 0 := by
  unfold Slicer.body at h
  repeat' split at h
  all_goals cases h
  exact ⟨rfl, by assumption⟩

theorem sum_pushSize (l : List Nat) (n : Nat) : (pushSize l n).sum = l.sum + n := by
  unfold pushSize
  split <;> simp_all

theorem positive_pushSize {l : List Nat} (h : ∀ m ∈ l, 0 < m) (n : Nat) : ∀ m ∈ pushSize l n, 0 < m := by
  unfold pushSize
  split
  · exact h
  · intro m mem
    rcases List.mem_append.mp mem with mem | mem
    · exact h m mem
    · rw [List.mem_singleton.mp mem]
      omega

/-- What is cut so far and what is left make up the parameter. -/
structure Slicer.Cuts (total : Nat) (s : Slicer) : Prop where
  sum : s.slice.sum + s.x = total
  positive : ∀ n ∈ s.slice, 0 < n

theorem Slicer.Cuts.pass {avg diff total : Nat} {s s' : Slicer} (cuts : s.Cuts total)
    (h : s.body avg diff = .inl s') : s'.Cuts total := by
  have sum := cuts.sum
  obtain ⟨_, ⟨rfl, _⟩ | ⟨rfl, _⟩ | ⟨rfl, _, _⟩ | ⟨rfl, _, _⟩⟩ := Slicer.body_inl h
  · exact ⟨by simp only [sum_pushSize]; omega, positive_pushSize cuts.positive _⟩
  · exact ⟨by simp only [sum_pushSize]; omega, positive_pushSize cuts.positive _⟩
  · exact ⟨by simp only [sum_pushSize]; omega, positive_pushSize cuts.positive _⟩
  · exact ⟨sum, cuts.positive⟩

/-- Passes that cut nothing leave a full box behind, so two passes always make progress. -/
def Slicer.rank (avg : Nat) (s : Slicer) : Nat := 2 * s.x + if s.capacity < avg then 1 else 0

theorem Slicer.rank_pass {avg diff : Nat} (pos : 0 < avg) (tenth : diff ≤ avg) {s s' : Slicer}
    (h : s.body avg diff = .inl s') : s'.rank avg < s.rank avg := by
  unfold Slicer.rank
  obtain ⟨_, ⟨rfl, _⟩ | ⟨rfl, _⟩ | ⟨rfl, _, _⟩ | ⟨rfl, _, _⟩⟩ := Slicer.body_inl h
  all_goals dsimp only; split <;> split <;> omega

/-- The `while` loop for one parameter ends. -/
theorem Slicer.ends {avg diff : Nat} (pos : 0 < avg) (tenth : diff ≤ avg) (s : Slicer) {fuel : Nat}
    (enough : 2 * s.x + 2 ≤ fuel) : ∃ r, Loop.run (Slicer.body avg diff) fuel s = some r := by
  have pass (s s' : Slicer) (_ : True) (h : s.body avg diff = .inl s') : True ∧ s'.rank avg < s.rank avg :=
    ⟨trivial, Slicer.rank_pass pos tenth h⟩
  obtain ⟨r, hr⟩ := Loop.run_ends (fun _ => True) (Slicer.rank avg) pass (s := s) trivial
  refine ⟨r, Loop.run_mono hr ?_⟩
  unfold Slicer.rank
  split <;> omega

theorem Slicer.cut {avg diff fuel capacity nbox x : Nat} {r : Slicer}
    (h : Loop.run (Slicer.body avg diff) fuel ⟨capacity, nbox, x, []⟩ = some r) :
    r.slice.sum = x ∧ ∀ n ∈ r.slice, 0 < n := by
  obtain ⟨last, cuts, left⟩ := Loop.run_inv (Slicer.Cuts x) (fun _ _ inv hb => inv.pass hb)
    ⟨by simp, by simp⟩ h
  obtain ⟨rfl, zero⟩ := Slicer.body_inr left
  have sum := cuts.sum
  exact ⟨by omega, cuts.positive⟩

/-! ## `Slice` -/

/-- The pieces of one size: positive, and adding up to it. -/
def PiecesOf (x : Nat) (pieces : List Nat) : Prop := pieces.sum = x ∧ ∀ n ∈ pieces, 0 < n

theorem sliceSizes_pieces {fuel avg diff capacity nbox : Nat} {sizes : List Nat}
    {r : List (List Nat) × Nat} (h : sliceSizes fuel avg diff sizes capacity nbox = .ok r) :
    List.Forall₂ PiecesOf sizes r.1 := by
  induction sizes generalizing capacity nbox r with
  | nil => cases h; exact .nil
  | cons x sizes ih =>
    obtain ⟨s, hs, h⟩ := Run.do_ok.mp h
    obtain ⟨rest, hrest, h⟩ := Run.do_ok.mp h
    cases h
    exact .cons (Slicer.cut (Run.ofLoop_eq_ok.mp hs)) (ih hrest)

theorem sliceSizes_ends {fuel avg diff : Nat} (pos : 0 < avg) (tenth : diff ≤ avg) {sizes : List Nat}
    (enough : 2 * sizes.sum + 2 ≤ fuel) (capacity nbox : Nat) :
    ∃ r, sliceSizes fuel avg diff sizes capacity nbox = .ok r := by
  induction sizes generalizing capacity nbox with
  | nil => exact ⟨_, rfl⟩
  | cons x sizes ih =>
    rw [List.sum_cons] at enough
    have first : 2 * x + 2 ≤ fuel := by omega
    obtain ⟨s, hs⟩ := Slicer.ends pos tenth ⟨capacity, nbox, x, []⟩ first
    obtain ⟨r, hr⟩ := ih (by omega) s.capacity s.nbox
    exact ⟨(s.slice :: r.1, r.2), Run.do_ok.mpr ⟨s, by simp [hs], Run.do_ok.mpr ⟨r, hr, rfl⟩⟩⟩

variable {fuel num : Nat} {sizes : List Nat}

/-- `Slice` of sizes that can be added up. -/
theorem slice_eq (pos : 0 < num) (small : sizes.sum < 2 ^ 31) : slice fuel num sizes = (do
    let (slices, nbox) ← sliceSizes fuel (average num sizes) (average num sizes / 10) sizes (average num sizes) 0
    if nbox ≤ num then .ok slices else .error .boxes) := by
  rw [slice, if_neg (by omega), addSizes_eq, asInt_of_lt small]
  rfl

theorem slice_overflow (pos : 0 < num) (wide : ¬ sizes.sum < 2 ^ 31) : slice fuel num sizes = .error .overflow := by
  rw [slice, if_neg (by omega), addSizes_eq, asInt_of_not_lt wide]
  rfl

theorem sum_lt_of_slice {pieces : List (List Nat)} (pos : 0 < num) (h : slice fuel num sizes = .ok pieces) :
    sizes.sum < 2 ^ 31 := by
  by_contra wide
  rw [slice_overflow pos wide] at h
  cases h

/-- What `Slice` returns: for each size its pieces. -/
theorem slice_pieces (pos : 0 < num) {r : List (List Nat)} (h : slice fuel num sizes = .ok r) :
    List.Forall₂ PiecesOf sizes r := by
  rw [slice_eq pos (sum_lt_of_slice pos h)] at h
  obtain ⟨⟨slices, nbox⟩, hs, h⟩ := Run.do_ok.mp h
  dsimp only at h
  split at h
  · cases h
    exact sliceSizes_pieces hs
  · cases h

/-- `Slice` ends on positive sizes: enough fuel leaves only its own `CHECK`. -/
theorem slice_ends (pos : 0 < num) (sized : ∀ x ∈ sizes, 0 < x) (enough : 2 * sizes.sum + 2 ≤ fuel) :
    slice fuel num sizes ≠ .error .fuel := by
  by_cases small : sizes.sum < 2 ^ 31
  swap
  · rw [slice_overflow pos small]
    simp
  rw [slice_eq pos small]
  cases sizes with
  | nil => simp [sliceSizes, bind, Except.bind]
  | cons x sizes =>
    have first := sized x (by simp)
    have total : 0 < (x :: sizes).sum := by rw [List.sum_cons]; omega
    have avgPos : 0 < average num (x :: sizes) := average_pos total
    obtain ⟨r, hr⟩ := sliceSizes_ends avgPos (Nat.div_le_self _ 10) enough (average num (x :: sizes)) 0
    simp only [hr, bind, Except.bind]
    split <;> simp

/-- Sizes that fit into the open box stay whole. -/
theorem sliceSizes_fits {fuel avg diff : Nat} (enough : 2 ≤ fuel) {sizes : List Nat} (sized : ∀ x ∈ sizes, 0 < x)
    {capacity : Nat} (nbox : Nat) (fits : sizes.sum ≤ capacity) :
    sliceSizes fuel avg diff sizes capacity nbox = .ok (sizes.map ([·]), nbox) := by
  induction sizes generalizing capacity with
  | nil => rfl
  | cons x sizes ih =>
    obtain ⟨some, sized⟩ := List.forall_mem_cons.mp sized
    rw [List.sum_cons] at fits
    have first : Slicer.body avg diff ⟨capacity, nbox, x, []⟩ = .inl ⟨capacity - x, nbox, 0, [x]⟩ := by
      simp [Slicer.body, pushSize, some.ne', show x ≤ capacity by omega]
    have run : Loop.run (Slicer.body avg diff) 2 ⟨capacity, nbox, x, []⟩ = .some ⟨capacity - x, nbox, 0, [x]⟩ := by
      rw [Loop.run_inl first]
      exact Loop.run_inr rfl 0
    refine Run.do_ok.mpr ⟨_, Run.ofLoop_eq_ok.mpr (Loop.run_mono run enough), ?_⟩
    exact Run.do_ok.mpr ⟨_, ih sized (by dsimp only; omega), rfl⟩

/-- For one box nothing is cut. -/
theorem slice_oneBox (enough : 2 ≤ fuel) (sized : ∀ x ∈ sizes, 0 < x) (small : sizes.sum < 2 ^ 31) :
    slice fuel 1 sizes = .ok (sizes.map ([·])) := by
  have whole : average 1 sizes = sizes.sum := by simp [average, Nat.mod_one]
  rw [slice_eq one_pos small, whole]
  exact Run.do_ok.mpr ⟨_, sliceSizes_fits enough sized 0 le_rfl, rfl⟩

/-! ## `PartitionSlices` -/

/-- A box of `PartitionSlices` is its free room; the last slice may overfill it by `diff`. -/
def partitionBoxes (avg diff : Nat) : NextFit.Boxes Nat Nat where
  put b x := if x ≤ b then some (b - x) else if x ≤ b + diff then some 0 else none
  fresh := avg

@[simp] theorem partitionBoxes_fresh (avg diff : Nat) : (partitionBoxes avg diff).fresh = avg := rfl

theorem partitionBoxes_eq (avg diff : Nat) : partitionBoxes avg diff = CutFit.boxes avg diff := by
  rw [partitionBoxes, CutFit.boxes]
  congr 1
  funext b x
  split_ifs
  · rfl
  · omega
  · rw [Nat.sub_eq_zero_of_le (by omega)]
  · rfl

theorem partitionBoxes_monotone (avg diff : Nat) : (partitionBoxes avg diff).Monotone := by
  rw [partitionBoxes_eq]
  exact CutFit.boxes_monotone

/-- The loop of `PartitionSlices` is the greedy run of its boxes. -/
theorem Partitioner.placed {avg diff fuel : Nat} {s r : Partitioner}
    (h : Loop.run (Partitioner.body avg diff) fuel s = some r) :
    ∃ ids, r.slice2box = s.slice2box ++ ids ∧
      NextFit.Placed (partitionBoxes avg diff) s.box s.boxid s.rest ids := by
  induction fuel generalizing s with
  | zero => cases h
  | succ fuel ih =>
    obtain ⟨box, boxid, rest, slice2box⟩ := s
    cases rest with
    | nil =>
      have leaves : Partitioner.body avg diff ⟨box, boxid, [], slice2box⟩ =
          .inr ⟨box, boxid, [], slice2box⟩ := rfl
      rw [Loop.run_inr leaves] at h
      cases h
      exact ⟨[], by simp, .nil⟩
    | cons x rest =>
      by_cases fits : x ≤ box
      · have pass : Partitioner.body avg diff ⟨box, boxid, x :: rest, slice2box⟩ =
            .inl ⟨box - x, boxid, rest, slice2box ++ [boxid]⟩ := by simp [Partitioner.body, fits]
        rw [Loop.run_inl pass] at h
        obtain ⟨ids, hids, placed⟩ := ih h
        exact ⟨boxid :: ids, by simpa using hids, .put (by simp [partitionBoxes, fits]) placed⟩
      · by_cases extra : x ≤ box + diff
        · have pass : Partitioner.body avg diff ⟨box, boxid, x :: rest, slice2box⟩ =
              .inl ⟨0, boxid, rest, slice2box ++ [boxid]⟩ := by simp [Partitioner.body, fits, extra]
          rw [Loop.run_inl pass] at h
          obtain ⟨ids, hids, placed⟩ := ih h
          exact ⟨boxid :: ids, by simpa using hids, .put (by simp [partitionBoxes, fits, extra]) placed⟩
        · have pass : Partitioner.body avg diff ⟨box, boxid, x :: rest, slice2box⟩ =
              .inl ⟨avg, boxid + 1, x :: rest, slice2box⟩ := by simp [Partitioner.body, fits, extra]
          rw [Loop.run_inl pass] at h
          obtain ⟨ids, hids, placed⟩ := ih h
          exact ⟨ids, hids, .next (by simp [partitionBoxes, fits, extra]) placed⟩

variable {slices : List Nat}

/-- `PartitionSlices` of slices that can be added up. -/
theorem partitionSlices_eq (pos : 0 < num) (small : slices.sum < 2 ^ 31) : partitionSlices fuel num slices = (do
    let s ← Run.ofLoop (Loop.run (Partitioner.body (average num slices) (average num slices / 10)) fuel
      ⟨average num slices, 0, slices, []⟩)
    if s.slice2box.length = slices.length then .ok s.slice2box else .error .sliceCount) := by
  rw [partitionSlices, if_neg (by omega), addSizes_eq, asInt_of_lt small]
  rfl

theorem partitionSlices_overflow (pos : 0 < num) (wide : ¬ slices.sum < 2 ^ 31) :
    partitionSlices fuel num slices = .error .overflow := by
  rw [partitionSlices, if_neg (by omega), addSizes_eq, asInt_of_not_lt wide]
  rfl

theorem sum_lt_of_partitionSlices {ids : List Nat} (pos : 0 < num) (h : partitionSlices fuel num slices = .ok ids) :
    slices.sum < 2 ^ 31 := by
  by_contra wide
  rw [partitionSlices_overflow pos wide] at h
  cases h

theorem partitionSlices_placed (pos : 0 < num) {ids : List Nat} (h : partitionSlices fuel num slices = .ok ids) :
    NextFit.Placed (partitionBoxes (average num slices) (average num slices / 10))
      (average num slices) 0 slices ids := by
  rw [partitionSlices_eq pos (sum_lt_of_partitionSlices pos h)] at h
  obtain ⟨s, hs, h⟩ := Run.do_ok.mp h
  obtain ⟨ids', hids, placed⟩ := Partitioner.placed (Run.ofLoop_eq_ok.mp hs)
  split at h
  · cases h
    rw [hids]
    exact placed
  · cases h

/-- One box of capacity `avg` holds the run: a first part fits, the next slice overfills the
box by at most a tenth of `avg`, and every slice after it is at most a tenth of `avg`. -/
def BoxHolds (avg : Nat) (run : List Nat) : Prop :=
  ∃ full extra : List Nat, run = full ++ extra ∧ full.sum ≤ avg ∧
    ∀ x small, extra = x :: small → full.sum + x ≤ avg + avg / 10 ∧ ∀ y ∈ small, y ≤ avg / 10

/-- The slices can be cut, in order, into at most `num` runs that one box holds each. -/
def FitsBoxes (num : Nat) (slices : List Nat) : Prop :=
  ∃ runs : List (List Nat), runs.flatten = slices ∧ runs.length ≤ num ∧
    ∀ run ∈ runs, BoxHolds (average num slices) run

/-- A box of `PartitionSlices` takes exactly the runs that `BoxHolds` describes. -/
theorem partitionBoxes_holds_iff {avg diff b : Nat} {run : List Nat} :
    (partitionBoxes avg diff).Holds b run ↔
      ∃ full extra : List Nat, run = full ++ extra ∧ full.sum ≤ b ∧
        ∀ x small, extra = x :: small → full.sum + x ≤ b + diff ∧ ∀ y ∈ small, y ≤ diff := by
  induction run generalizing b with
  | nil => exact ⟨fun _ => ⟨[], [], rfl, by simp, by simp⟩, fun _ => trivial⟩
  | cons x run ih =>
    simp only [NextFit.Boxes.Holds, ih]
    constructor
    · rintro ⟨c, takes, full, extra, rfl, fits, tail⟩
      simp only [partitionBoxes] at takes
      split at takes
      · cases takes
        refine ⟨x :: full, extra, rfl, by simp only [List.sum_cons]; omega, ?_⟩
        intro y small hy
        obtain ⟨bound, rest⟩ := tail y small hy
        exact ⟨by simp only [List.sum_cons]; omega, rest⟩
      · split at takes
        · cases takes
          refine ⟨[], x :: (full ++ extra), rfl, by simp, ?_⟩
          rintro y small ⟨⟩
          refine ⟨by simpa using by assumption, ?_⟩
          intro z mem
          rcases List.mem_append.mp mem with mem | mem
          · have := List.single_le_sum (by simp) z mem
            omega
          · cases extra with
            | nil => simp at mem
            | cons w small =>
              obtain ⟨bound, rest⟩ := tail w small rfl
              rcases List.mem_cons.mp mem with rfl | mem
              · omega
              · exact rest z mem
        · cases takes
    · rintro ⟨full, extra, split, fits, tail⟩
      cases full with
      | nil =>
        obtain ⟨bound, rest⟩ := tail x run (by simpa using split.symm)
        simp only [List.sum_nil, Nat.zero_add] at bound
        have later : ∀ c : Nat, ∃ full extra : List Nat, run = full ++ extra ∧ full.sum ≤ c ∧
            ∀ y small, extra = y :: small → full.sum + y ≤ c + diff ∧ ∀ z ∈ small, z ≤ diff := by
          intro c
          refine ⟨[], run, rfl, by simp, ?_⟩
          rintro y small rfl
          exact ⟨by have := rest y (by simp); simp only [List.sum_nil]; omega,
            fun z mem => rest z (List.mem_cons_of_mem _ mem)⟩
        by_cases le : x ≤ b
        · exact ⟨b - x, by simp [partitionBoxes, le], later _⟩
        · exact ⟨0, by simp [partitionBoxes, le, bound], later _⟩
      | cons y full =>
        obtain ⟨rfl, rfl⟩ : x = y ∧ run = full ++ extra := by simpa using split
        rw [List.sum_cons] at fits
        refine ⟨b - x, by simp only [partitionBoxes]; rw [if_pos (by omega)], full, extra, rfl, by omega, ?_⟩
        intro z small hz
        obtain ⟨bound, rest⟩ := tail z small hz
        rw [List.sum_cons] at bound
        exact ⟨by omega, rest⟩

/-- The box ids of a partition: one for each slice, non-decreasing, all below `num`. -/
structure BoxIds (num : Nat) (slices ids : List Nat) : Prop where
  each : ids.length = slices.length
  ordered : ids.Pairwise (· ≤ ·)
  below : ∀ id ∈ ids, id < num

/-- **`PartitionSlices` stays within `num` boxes exactly when the slices fit them in order.** -/
theorem partitionSlices_boxIds_iff {fuel num : Nat} (pos : 0 < num) {slices ids : List Nat}
    (h : partitionSlices fuel num slices = .ok ids) : BoxIds num slices ids ↔ FitsBoxes num slices := by
  have placed := partitionSlices_placed pos h
  have below := NextFit.Placed.below_iff (partitionBoxes_monotone _ _) placed pos
  simp only [partitionBoxes_fresh, partitionBoxes_holds_iff] at below
  exact ⟨fun ids => below.mp ids.below, fun fits => ⟨placed.length_eq, placed.pairwise, below.mpr fits⟩⟩

end Singa
