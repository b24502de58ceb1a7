import Singa.Utils.Slicing

/-!
# When `PartitionSlices` ends, and what its boxes hold

A slice that is larger than a fresh box with its tolerance makes the loop open
boxes for ever; with no such slice it ends after a pass for every slice and one
for every box. The tolerance is not used up by the slice that needs it: a full
box still takes every slice of at most a tenth, so that its load has no bound.
-/

namespace Singa
set_option autoImplicit false

variable {num : Nat} {slices : List Nat}

/-- The loop of `PartitionSlices` comes to an end. -/
def PartitionEnds (num : Nat) (slices : List Nat) : Prop := ∃ fuel, partitionSlices fuel num slices ≠ .error .fuel

/-- The most that a box of `PartitionSlices` is meant to hold. -/
def tolerated (num : Nat) (slices : List Nat) : Nat := average num slices + average num slices / 10

/-! ## Termination -/

/-- A pass takes a slice or opens a box for the next one to take. -/
def Partitioner.rank (avg : Nat) (s : Partitioner) : Nat := 2 * s.rest.length + if s.box < avg then 1 else 0

theorem Partitioner.rank_pass {avg diff : Nat} {s s' : Partitioner} (fits : ∀ x ∈ s.rest, x ≤ avg + diff)
    (h : s.body avg diff = .inl s') : (∀ x ∈ s'.rest, x ≤ avg + diff) ∧ s'.rank avg < s.rank avg := by
  obtain ⟨box, boxid, rest, slice2box⟩ := s
  cases rest with
  | nil => cases h
  | cons x rest =>
    obtain ⟨small, later⟩ := List.forall_mem_cons.mp fits
    simp only [Partitioner.body] at h
    split at h
    · cases h
      refine ⟨later, ?_⟩
      simp only [rank, List.length_cons]
      split_ifs <;> omega
    · split at h
      · cases h
        refine ⟨later, ?_⟩
        simp only [rank, List.length_cons]
        split_ifs <;> omega
      · cases h
        refine ⟨fits, ?_⟩
        simp only [rank, List.length_cons]
        split_ifs <;> omega

/-- A slice that no box takes is never passed. -/
theorem Partitioner.stuck {avg diff x fuel : Nat} (large : avg + diff < x) {s r : Partitioner} (low : s.box ≤ avg)
    (here : x ∈ s.rest) (h : Loop.run (Partitioner.body avg diff) fuel s = some r) : False := by
  obtain ⟨last, ⟨-, there⟩, leave⟩ := Loop.run_inv (fun s : Partitioner => s.box ≤ avg ∧ x ∈ s.rest)
    (fun s s' ⟨low, here⟩ pass => by
      obtain ⟨box, boxid, rest, slice2box⟩ := s
      cases rest with
      | nil => cases here
      | cons y rest =>
        simp only [Partitioner.body] at pass low here
        split at pass
        · cases pass
          exact ⟨by simp only; omega, (List.mem_cons.mp here).resolve_left (by omega)⟩
        · split at pass
          · cases pass
            exact ⟨Nat.zero_le avg, (List.mem_cons.mp here).resolve_left (by omega)⟩
          · cases pass
            exact ⟨le_rfl, here⟩) ⟨low, here⟩ h
  unfold Partitioner.body at leave
  split at leave
  · rename_i empty
    rw [empty] at there
    cases there
  · split_ifs at leave

/-- With slices that a box takes, `PartitionSlices` returns. -/
theorem partitionSlices_ok (pos : 0 < num) (small : slices.sum < 2 ^ 31) (fits : ∀ x ∈ slices, x ≤ tolerated num slices) :
    ∃ ids, ∃ n, ∀ fuel ≥ n, partitionSlices fuel num slices = .ok ids := by
  obtain ⟨r, run⟩ := Loop.run_ends (fun s : Partitioner => ∀ x ∈ s.rest, x ≤ average num slices + average num slices / 10)
    (Partitioner.rank (average num slices)) (fun _ _ fits pass => Partitioner.rank_pass fits pass)
    (s := ⟨average num slices, 0, slices, []⟩) fits
  obtain ⟨ids, same, placed⟩ := Partitioner.placed run
  rw [List.nil_append] at same
  refine ⟨ids, Partitioner.rank (average num slices) ⟨average num slices, 0, slices, []⟩ + 1, fun fuel enough => ?_⟩
  rw [partitionSlices_eq pos small]
  refine Run.do_ok.mpr ⟨r, Run.ofLoop_eq_ok.mpr (Loop.run_mono run enough), ?_⟩
  rw [same, if_pos placed.length_eq]

theorem partitionEnds_iff (pos : 0 < num) (small : slices.sum < 2 ^ 31) :
    PartitionEnds num slices ↔ ∀ x ∈ slices, x ≤ tolerated num slices := by
  constructor
  · rintro ⟨fuel, ends⟩ x mem
    by_contra large
    refine ends ?_
    rw [partitionSlices_eq pos small]
    cases run : Loop.run (Partitioner.body (average num slices) (average num slices / 10)) fuel
      ⟨average num slices, 0, slices, []⟩ with
    | none => simp only [Run.ofLoop, bind, Except.bind]
    | some r => exact (Partitioner.stuck (not_le.mp large) le_rfl mem run).elim
  · intro fits
    obtain ⟨ids, n, run⟩ := partitionSlices_ok pos small fits
    refine ⟨n, ?_⟩
    rw [run n le_rfl]
    simp

/-! ## The load of a box -/

/-- `PartitionSlices` returns, and no box holds more than it is meant to. -/
def Balanced (num : Nat) (slices : List Nat) : Prop :=
  ∃ ids, (∃ n, ∀ fuel ≥ n, partitionSlices fuel num slices = .ok ids) ∧
    ∀ k, (NextFit.inBox k ids slices).sum ≤ tolerated num slices

/-- **The boxes of `PartitionSlices` keep to the tolerance exactly when every slice that starts a new total is larger
than a tenth of the average**, if totals are started again where the tolerance is exceeded. A smaller slice goes into
the full box, which grants its tolerance again and again. -/
theorem partitionSlices_balanced_iff (pos : 1 ≤ num) (fits : ∀ x ∈ slices, x ≤ tolerated num slices) :
    Balanced num slices ↔ slices.sum < 2 ^ 31 ∧
      ∀ x ∈ CutFit.starters (tolerated num slices) 0 slices, average num slices / 10 < x := by
  have loads {ids : List Nat} {fuel : Nat} (run : partitionSlices fuel num slices = .ok ids) :
      (∀ k, (NextFit.inBox k ids slices).sum ≤ tolerated num slices) ↔
        ∀ x ∈ CutFit.starters (tolerated num slices) 0 slices, average num slices / 10 < x := by
    have placed := partitionSlices_placed pos run
    rw [partitionBoxes_eq] at placed
    have load := CutFit.placed_load_iff placed rfl (Nat.zero_le _) fits
    simp only [ite_self, Nat.zero_add] at load
    exact load
  constructor
  · rintro ⟨ids, ⟨n, run⟩, light⟩
    exact ⟨sum_lt_of_partitionSlices pos (run n le_rfl), (loads (run n le_rfl)).mp light⟩
  · rintro ⟨small, large⟩
    obtain ⟨ids, n, run⟩ := partitionSlices_ok pos small fits
    exact ⟨ids, ⟨n, run⟩, (loads (run n le_rfl)).mpr large⟩

/-- Four slices of three, two boxes: the first box takes two, and the third is too large for what is left. -/
theorem fourSlices_balanced : Balanced 2 [3, 3, 3, 3] :=
  (partitionSlices_balanced_iff (by decide) (by decide)).mpr ⟨by decide, by decide⟩

/-- One slice of ten and ten slices of one: the first fills a box, which then takes every other too. -/
theorem tinySlices_unbalanced : (∀ x ∈ 10 :: List.replicate 10 1, x ≤ tolerated 2 (10 :: List.replicate 10 1)) ∧
    partitionSlices 100 2 (10 :: List.replicate 10 1) = .ok (List.replicate 11 0) ∧
    tolerated 2 (10 :: List.replicate 10 1) = 11 ∧
    (NextFit.inBox 0 (List.replicate 11 0) (10 :: List.replicate 10 1)).sum = 20 := by
  decide +kernel

end Singa
