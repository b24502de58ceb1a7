import Singa.Utils.SliceBoxes

/-!
# Partitioning what `Slice` has cut

For the number of boxes that `Slice` cut for, `PartitionSlices` puts every
piece back into the box it was cut for. `SetupWorkerServer` asks for other
numbers: the pieces are cut for `LeastCommonMultiple(g, s)` boxes and then
partitioned among `g` and among `s`. `avg / num + avg % num` does not grow when
`num` shrinks, so that a piece can be larger than any box, and that more boxes can
be opened than there are servers or groups.
-/

namespace Singa
set_option autoImplicit false

open CutFit

variable {fuel num : Nat} {sizes : List Nat} {pieces : List (List Nat)}

theorem PiecesOf.sum_flatten (cut : List.Forall₂ PiecesOf sizes pieces) : pieces.flatten.sum = sizes.sum := by
  induction cut with
  | nil => rfl
  | cons piece _ ih => rw [List.flatten_cons, List.sum_append, piece.1, ih, List.sum_cons]

/-- Cutting does not change the total, so the boxes of the pieces are those of the sizes. -/
theorem average_flatten (pos : 0 < num) (h : slice fuel num sizes = .ok pieces) (n : Nat) :
    average n pieces.flatten = average n sizes := by
  rw [average, average, PiecesOf.sum_flatten (slice_pieces pos h)]

theorem sum_flatten_lt (pos : 0 < num) (h : slice fuel num sizes = .ok pieces) : pieces.flatten.sum < 2 ^ 31 := by
  rw [PiecesOf.sum_flatten (slice_pieces pos h)]
  exact sum_lt_of_slice pos h

/-- A piece fits a box of the number that it was cut for. -/
theorem slice_piece_le (pos : 0 < num) (sized : ∀ x ∈ sizes, 0 < x) (h : slice fuel num sizes = .ok pieces) :
    ∀ x ∈ pieces.flatten, x ≤ average num sizes + average num sizes / 10 := by
  obtain ⟨_, out, _, -, fst, -, -, dealt⟩ := slice_dealt pos sized h
  intro x mem
  rw [fst] at mem
  obtain ⟨e, cut, rfl⟩ := List.mem_map.mp mem
  exact dealt.piece_le le_rfl e cut

/-! ## The same number of boxes -/

/-- **`PartitionSlices` finds the boxes of `Slice`**: partitioned among the boxes they were cut for, the pieces go
where `Slice` had them. -/
theorem partitionSlices_sliceBoxes (pos : 1 ≤ num) (sized : ∀ x ∈ sizes, 0 < x) (h : slice fuel num sizes = .ok pieces) :
    ∃ boxes, sliceBoxes fuel num sizes = .ok boxes ∧
      ∃ n, ∀ fuel' ≥ n, partitionSlices fuel' num pieces.flatten = .ok boxes.flatten := by
  obtain ⟨boxes, out, last, made, fst, snd, -, dealt⟩ := slice_dealt pos sized h
  have same := average_flatten pos h num
  have fits : ∀ x ∈ pieces.flatten, x ≤ tolerated num pieces.flatten := by
    rw [tolerated, same]
    exact slice_piece_le pos sized h
  obtain ⟨ids, n, run⟩ := partitionSlices_ok pos (sum_flatten_lt pos h) fits
  have placed := partitionSlices_placed pos (run n le_rfl)
  rw [same, partitionBoxes_eq, fst] at placed
  refine ⟨boxes, made, n, fun fuel' enough => ?_⟩
  rw [run fuel' enough, snd]
  cases sizes with
  | nil =>
    cases dealt
    cases placed
    rfl
  | cons x items =>
    have room : 0 < average num (x :: items) := average_pos_of_mem sized List.mem_cons_self
    rw [placed.det (dealt.placed room (by omega))]

/-- Two parameters of three and five floats: the second is cut to fill the first box. -/
theorem sliceBoxes_threeFive : sliceBoxes 20 2 [3, 5] = .ok [[0], [0, 1]] ∧
    ∃ n, ∀ fuel' ≥ n, partitionSlices fuel' 2 [3, 1, 4] = .ok [0, 0, 1] := by
  have cut : slice 20 2 [3, 5] = .ok [[3], [1, 4]] := by decide +kernel
  have made : sliceBoxes 20 2 [3, 5] = .ok [[0], [0, 1]] := by decide +kernel
  obtain ⟨boxes, same, n, run⟩ := partitionSlices_sliceBoxes (by decide) (by decide) cut
  rw [made] at same
  cases same
  exact ⟨made, n, run⟩

/-! ## The servers of a group and the groups -/

variable {g s : Nat}

theorem leastCommonMultiple_one_two : leastCommonMultiple 1 2 = 2 := by simp [leastCommonMultiple, gcd_eq]

/-- Boxes of the servers and of the groups that are as large as those of `Slice` are enough. -/
theorem partitions_end_of_average_le (hg : 1 ≤ g) (hs : 1 ≤ s) (sized : ∀ x ∈ sizes, 0 < x)
    (h : slice fuel (leastCommonMultiple g s) sizes = .ok pieces)
    (groups : average (leastCommonMultiple g s) sizes ≤ average g sizes)
    (servers : average (leastCommonMultiple g s) sizes ≤ average s sizes) :
    PartitionEnds g pieces.flatten ∧ PartitionEnds s pieces.flatten := by
  have boxes := leastCommonMultiple_pos hg hs
  have small := slice_piece_le boxes sized h
  have ends {n : Nat} (pos : 1 ≤ n) (large : average (leastCommonMultiple g s) sizes ≤ average n sizes) :
      PartitionEnds n pieces.flatten := by
    refine (partitionEnds_iff pos (sum_flatten_lt boxes h)).mpr fun x mem => (small x mem).trans ?_
    rw [tolerated, average_flatten boxes h]
    exact Nat.add_le_add large (Nat.div_le_div_right large)
  exact ⟨ends hg groups, ends hs servers⟩

/-! ## The servers and the groups that exist -/

/-- Slices cut for `LeastCommonMultiple(g, s)` boxes, with the servers of a group and the groups that they go to. -/
structure Assignment where
  slices : List Nat
  slice2server : List Nat
  slice2group : List Nat
  deriving DecidableEq, Repr

/-- The slices of `SliceParams`, partitioned among the groups and the servers as in `SetupWorkerServer`. -/
def assignSlices (fuel g s : Nat) (sizes : List Nat) : Run Assignment := do
  let lcm ← asInt (leastCommonMultiple g s)
  let pieces ← slice fuel lcm sizes
  let slices := pieces.flatten
  let slice2group ← partitionSlices fuel g slices
  let slice2server ← partitionSlices fuel s slices
  return { slices, slice2server, slice2group }

/-- No sum or product is too large for an `int`, and every slice that is assigned goes to a server and a group
that exist. -/
structure AssignsExisting (g s : Nat) (sizes : List Nat) : Prop where
  ints : ∀ fuel, assignSlices fuel g s sizes ≠ .error .overflow
  exist : ∀ fuel a, assignSlices fuel g s sizes = .ok a →
    BoxIds s a.slices a.slice2server ∧ BoxIds g a.slices a.slice2group

/-- More fuel changes nothing. -/
theorem slice_mono {fuel' : Nat} (pos : 0 < num) (h : slice fuel num sizes = .ok pieces) (le : fuel ≤ fuel') :
    slice fuel' num sizes = .ok pieces := by
  have small := sum_lt_of_slice pos h
  have loop {avg diff capacity nbox : Nat} {xs : List Nat} {r : List (List Nat) × Nat}
      (h : sliceSizes fuel avg diff xs capacity nbox = .ok r) : sliceSizes fuel' avg diff xs capacity nbox = .ok r := by
    induction xs generalizing capacity nbox r with
    | nil => exact h
    | cons x xs ih =>
      obtain ⟨last, cut, h⟩ := Run.do_ok.mp h
      obtain ⟨rest, cuts, h⟩ := Run.do_ok.mp h
      have cut' := Loop.run_mono (Run.ofLoop_eq_ok.mp cut) le
      exact Run.do_ok.mpr ⟨last, Run.ofLoop_eq_ok.mpr cut', Run.do_ok.mpr ⟨rest, ih cuts, h⟩⟩
  rw [slice_eq pos small] at h ⊢
  obtain ⟨r, cuts, h⟩ := Run.do_ok.mp h
  exact Run.do_ok.mpr ⟨r, loop cuts, h⟩

theorem assignSlices_eq (lcm : leastCommonMultiple g s < 2 ^ 31) : assignSlices fuel g s sizes = (do
    let pieces ← slice fuel (leastCommonMultiple g s) sizes
    let slice2group ← partitionSlices fuel g pieces.flatten
    let slice2server ← partitionSlices fuel s pieces.flatten
    return ⟨pieces.flatten, slice2server, slice2group⟩) := by
  rw [assignSlices, asInt_of_lt lcm]
  rfl

/-- What was assigned is what `Slice` and `PartitionSlices` returned. -/
theorem assignSlices_ok {a : Assignment} (lcm : leastCommonMultiple g s < 2 ^ 31) : assignSlices fuel g s sizes = .ok a ↔
    ∃ pieces, slice fuel (leastCommonMultiple g s) sizes = .ok pieces ∧ a.slices = pieces.flatten ∧
      partitionSlices fuel s a.slices = .ok a.slice2server ∧ partitionSlices fuel g a.slices = .ok a.slice2group := by
  rw [assignSlices_eq lcm]
  constructor
  · intro h
    obtain ⟨pieces, cut, h⟩ := Run.do_ok.mp h
    obtain ⟨groups, toGroups, h⟩ := Run.do_ok.mp h
    obtain ⟨servers, toServers, h⟩ := Run.do_ok.mp h
    cases h
    exact ⟨pieces, cut, rfl, toServers, toGroups⟩
  · obtain ⟨slices, servers, groups⟩ := a
    rintro ⟨pieces, cut, rfl, toServers, toGroups⟩
    exact Run.do_ok.mpr ⟨_, cut, Run.do_ok.mpr ⟨_, toGroups, Run.do_ok.mpr ⟨_, toServers, rfl⟩⟩⟩

/-- `PartitionSlices` of slices that can be added up stops for no other reason than its own. -/
theorem partitionSlices_ne_overflow (pos : 0 < num) {slices : List Nat} (small : slices.sum < 2 ^ 31) :
    partitionSlices fuel num slices ≠ .error .overflow := by
  rw [partitionSlices_eq pos small]
  cases run : Loop.run (Partitioner.body (average num slices) (average num slices / 10)) fuel
    ⟨average num slices, 0, slices, []⟩ with
  | none => simp [Run.ofLoop, bind, Except.bind]
  | some r =>
    simp only [Run.ofLoop, bind, Except.bind]
    split <;> simp

theorem slice_ne_overflow (pos : 0 < num) (small : sizes.sum < 2 ^ 31) : slice fuel num sizes ≠ .error .overflow := by
  intro stopped
  rcases slice_error pos small stopped with wide | ⟨wide, -⟩
  · cases wide
  · cases wide

/-- Where the multiple and the total are `int`s, nothing is too large. -/
theorem assignSlices_ne_overflow_iff (hg : 1 ≤ g) (hs : 1 ≤ s) :
    (∀ fuel, assignSlices fuel g s sizes ≠ .error .overflow) ↔ leastCommonMultiple g s < 2 ^ 31 ∧ sizes.sum < 2 ^ 31 := by
  have boxes := leastCommonMultiple_pos hg hs
  constructor
  · intro ints
    have lcm : leastCommonMultiple g s < 2 ^ 31 := by
      by_contra wide
      apply ints 0
      rw [assignSlices, asInt_of_not_lt wide]
      rfl
    refine ⟨lcm, ?_⟩
    by_contra wide
    apply ints 0
    rw [assignSlices_eq lcm, slice_overflow boxes wide]
    rfl
  · rintro ⟨lcm, small⟩ fuel stopped
    rw [assignSlices_eq lcm] at stopped
    rcases Run.do_error.mp stopped with cut | ⟨pieces, cut, stopped⟩
    · exact slice_ne_overflow boxes small cut
    · have sum := sum_flatten_lt boxes cut
      rcases Run.do_error.mp stopped with groups | ⟨_, -, stopped⟩
      · exact partitionSlices_ne_overflow hg sum groups
      · rcases Run.do_error.mp stopped with servers | ⟨_, -, last⟩
        · exact partitionSlices_ne_overflow hs sum servers
        · cases last

/-- **Every slice has an existing server and an existing master group exactly when the slices fit `s` boxes and `g`
boxes in order**, if a box takes each of them at all. Neither function checks it: `Slice` compares the index of its
last box with `num` by `<=`, and cuts for another number of boxes. -/
theorem slices_assigned_iff (hg : 1 ≤ g) (hs : 1 ≤ s) (sizes : List Nat) : AssignsExisting g s sizes ↔
    leastCommonMultiple g s < 2 ^ 31 ∧ sizes.sum < 2 ^ 31 ∧
      ∀ fuel pieces, slice fuel (leastCommonMultiple g s) sizes = .ok pieces →
        (∀ x ∈ pieces.flatten, x ≤ tolerated g sizes ∧ x ≤ tolerated s sizes) →
          FitsBoxes s pieces.flatten ∧ FitsBoxes g pieces.flatten := by
  have boxes := leastCommonMultiple_pos hg hs
  constructor
  · intro assigns
    obtain ⟨lcm, small⟩ := (assignSlices_ne_overflow_iff hg hs).mp assigns.ints
    refine ⟨lcm, small, fun fuel pieces cut inside => ?_⟩
    have sum := sum_flatten_lt boxes cut
    obtain ⟨groups, n, toGroups⟩ := partitionSlices_ok hg sum fun x mem => by
      rw [tolerated, average_flatten boxes cut]
      exact (inside x mem).1
    obtain ⟨servers, m, toServers⟩ := partitionSlices_ok hs sum fun x mem => by
      rw [tolerated, average_flatten boxes cut]
      exact (inside x mem).2
    have cut' := slice_mono boxes cut (show fuel ≤ max fuel (max n m) by omega)
    have groups' := toGroups (max fuel (max n m)) (by omega)
    have servers' := toServers (max fuel (max n m)) (by omega)
    obtain ⟨idsS, idsG⟩ := assigns.exist _ ⟨pieces.flatten, servers, groups⟩
      ((assignSlices_ok lcm).mpr ⟨pieces, cut', rfl, servers', groups'⟩)
    exact ⟨(partitionSlices_boxIds_iff hs servers').mp idsS, (partitionSlices_boxIds_iff hg groups').mp idsG⟩
  · rintro ⟨lcm, small, fits⟩
    refine ⟨(assignSlices_ne_overflow_iff hg hs).mpr ⟨lcm, small⟩, fun fuel a run => ?_⟩
    obtain ⟨pieces, cut, same, toServers, toGroups⟩ := (assignSlices_ok lcm).mp run
    rw [same] at toServers toGroups ⊢
    have ends : PartitionEnds g pieces.flatten ∧ PartitionEnds s pieces.flatten :=
      ⟨⟨fuel, by rw [toGroups]; simp⟩, ⟨fuel, by rw [toServers]; simp⟩⟩
    have sum := sum_flatten_lt boxes cut
    rw [partitionEnds_iff hg sum, partitionEnds_iff hs sum, tolerated, tolerated, average_flatten boxes cut,
      average_flatten boxes cut] at ends
    obtain ⟨servers, groups⟩ := fits fuel pieces cut fun x mem => ⟨ends.1 x mem, ends.2 x mem⟩
    exact ⟨(partitionSlices_boxIds_iff hs toServers).mpr servers, (partitionSlices_boxIds_iff hg toGroups).mpr groups⟩

/-- What `Slice` returns, whatever the fuel. -/
theorem slice_det {fuel' : Nat} {pieces' : List (List Nat)} (pos : 0 < num) (h : slice fuel num sizes = .ok pieces)
    (h' : slice fuel' num sizes = .ok pieces') : pieces' = pieces := by
  have both := slice_mono pos h (le_max_left fuel fuel')
  rw [slice_mono pos h' (le_max_right fuel fuel')] at both
  exact Except.ok.inj both

/-- One server group of two servers and two parameters of four floats. -/
theorem slices_assigned_two_servers : AssignsExisting 1 2 [4, 4] := by
  refine (slices_assigned_iff (by decide) (by decide) [4, 4]).mpr ⟨?_, by decide, fun fuel pieces cut _ => ?_⟩
  · rw [leastCommonMultiple_one_two]
    decide
  · rw [leastCommonMultiple_one_two] at cut
    have two : slice 10 2 [4, 4] = .ok [[4], [4]] := by decide +kernel
    obtain rfl := slice_det (by decide) two cut
    refine ⟨⟨[[4], [4]], rfl, by decide, ?_⟩, ⟨[[4, 4]], rfl, by decide, ?_⟩⟩
    · simp only [List.forall_mem_cons]
      exact ⟨⟨[4], [], rfl, by decide, by simp⟩, ⟨[4], [], rfl, by decide, by simp⟩, by simp⟩
    · simp only [List.forall_mem_cons]
      exact ⟨⟨[4, 4], [], rfl, by decide, by simp⟩, by simp⟩

/-- Three server groups of two servers and one parameter of 19 floats: the parameter is cut for six boxes, and the
three boxes of the groups, of seven floats each, are too few for the pieces. -/
theorem slices_assigned_three_groups : assignSlices 20 3 2 [19] = .ok ⟨[4, 4, 4, 4, 3], [0, 0, 1, 1, 1], [0, 1, 2, 3, 3]⟩ ∧
    ¬ AssignsExisting 3 2 [19] := by
  have run : assignSlices 20 3 2 [19] = .ok ⟨[4, 4, 4, 4, 3], [0, 0, 1, 1, 1], [0, 1, 2, 3, 3]⟩ := by
    rw [assignSlices, show leastCommonMultiple 3 2 = 6 by simp [leastCommonMultiple, gcd_eq]]
    decide +kernel
  refine ⟨run, fun assigns => ?_⟩
  obtain ⟨-, groups⟩ := assigns.exist 20 _ run
  exact absurd (groups.below 3 (by decide)) (by decide)

end Singa
