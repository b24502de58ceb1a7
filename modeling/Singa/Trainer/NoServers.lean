import Singa.Trainer.SliceTiling

/-!
# `SliceParams` without servers

`Worker::Setup` provides for a cluster without servers, and `SetupWorkerServer`
calls `SliceParams` for every cluster. The iterator into the result of `Slice`
moves with the parameters that own themselves. The result has an entry for each
of them, but none at all for no box.
-/

namespace Singa
set_option autoImplicit false

variable {α : Type}

theorem leastCommonMultiple_eq_zero {a b : Nat} : leastCommonMultiple a b = 0 ↔ a = 0 ∨ b = 0 := by
  constructor
  · intro zero
    by_contra both
    rw [not_or] at both
    have pos := leastCommonMultiple_pos (Nat.pos_of_ne_zero both.1) (Nat.pos_of_ne_zero both.2)
    omega
  · rintro (rfl | rfl) <;> simp [leastCommonMultiple]

/-- The numbering loop stops exactly at the first owner behind the last entry of `it`. -/
theorem Numbering.params_range_iff (ps : List (Param α)) (s : Numbering) :
    Numbering.params ps s = .error .range ↔ s.it.length < (ownerSizes ps).length := by
  induction ps generalizing s with
  | nil => simp [Numbering.params, ownerSizes]
  | cons p ps ih =>
    rw [Numbering.params]
    by_cases owner : p.id = p.owner
    · have sizes : ownerSizes (p :: ps) = p.size :: ownerSizes ps := by simp [ownerSizes, owner]
      rw [if_pos owner, sizes, List.length_cons]
      cases entries : s.it with
      | nil => simp
      | cons lens it =>
        show Numbering.params ps { Numbering.pieces p.id lens s with it := it } = .error .range ↔ _
        rw [ih, List.length_cons, Nat.add_lt_add_iff_right]
    · have sizes : ownerSizes (p :: ps) = ownerSizes ps := by simp [ownerSizes, owner]
      rw [if_neg owner, sizes, ih]

/-- Parameters of which none owns itself are passed over. -/
theorem Numbering.params_none {ps : List (Param α)} (none_owns : ∀ p ∈ ps, p.id ≠ p.owner) (s : Numbering) :
    Numbering.params ps s = .ok s := by
  induction ps with
  | nil => rfl
  | cons p ps ih =>
    rw [Numbering.params, if_neg (none_owns p List.mem_cons_self)]
    exact ih fun q mem => none_owns q (List.mem_cons_of_mem p mem)

theorem ownerSizes_eq_nil {params : List (Param α)} : ownerSizes params = [] ↔ ∀ p ∈ params, p.id ≠ p.owner := by
  simp [ownerSizes]

theorem sliceSizes_ne_range (fuel avg diff : Nat) (sizes : List Nat) (capacity nbox : Nat) :
    sliceSizes fuel avg diff sizes capacity nbox ≠ .error .range := by
  induction sizes generalizing capacity nbox with
  | nil => simp [sliceSizes]
  | cons x sizes ih =>
    intro stopped
    rw [sliceSizes] at stopped
    rcases Run.do_error.mp stopped with cutting | ⟨s, -, rest⟩
    · cases run : Loop.run (Slicer.body avg diff) fuel ⟨capacity, nbox, x, []⟩ <;> simp [run, Run.ofLoop] at cutting
    · rcases Run.do_error.mp rest with rest | ⟨r, -, last⟩
      · exact ih s.capacity s.nbox rest
      · cases last

/-- `Slice` has no iterator of its own. -/
theorem slice_ne_range (fuel num : Nat) (sizes : List Nat) : slice fuel num sizes ≠ .error .range := by
  intro stopped
  unfold slice at stopped
  split at stopped
  · cases stopped
  rcases Run.do_error.mp stopped with adding | ⟨avg, -, stopped⟩
  · rw [addSizes_eq, asInt] at adding
    split at adding <;> cases adding
  · rcases Run.do_error.mp stopped with cutting | ⟨⟨slices, nbox⟩, -, check⟩
    · exact sliceSizes_ne_range fuel _ _ sizes _ 0 cutting
    · dsimp only at check
      split at check <;> cases check

theorem addSlices_ne_range (p : Param α) (entries : List (Nat × Nat)) : addSlices p entries ≠ .error .range := by
  induction entries generalizing p with
  | nil => simp [addSlices, pure, Except.pure]
  | cons e entries ih =>
    intro stopped
    rw [addSlices, List.foldlM_cons] at stopped
    rcases Run.do_error.mp stopped with first | ⟨next, -, rest⟩
    · unfold Param.addSlice at first
      split at first
      · split at first <;> cases first
      · cases first
    · exact ih next rest

/-- `SliceParams` reads past the result of `Slice` exactly if that is shorter than the list of owners. -/
theorem sliceParams_range_iff (fuel : Nat) (cluster : ClusterProto) (params : List (Param α)) :
    sliceParams fuel cluster params = .error .range ↔
      ∃ pieces, slice fuel (leastCommonMultiple cluster.nserverGroups cluster.nserversPerGroup) (ownerSizes params) =
        .ok pieces ∧ pieces.length < (ownerSizes params).length := by
  constructor
  · intro stopped
    rw [sliceParams_eq (lcm_lt_of_sliceParams (by rw [stopped]; simp))] at stopped
    rcases Run.do_error.mp stopped with cutting | ⟨pieces, cut, rest⟩
    · exact absurd cutting (slice_ne_range _ _ _)
    · refine ⟨pieces, cut, ?_⟩
      rcases Run.do_error.mp rest with numbering | ⟨s, -, rest⟩
      · exact (Numbering.params_range_iff params _).mp numbering
      · -- the iterator is not used any more
        rcases Run.do_error.mp rest with adding | ⟨sliced, -, last⟩
        · obtain ⟨p, -, stopped⟩ := Run.mapM_error adding
          exact absurd stopped (addSlices_ne_range p _)
        · cases last
  · rintro ⟨pieces, cut, short⟩
    -- only without boxes there are fewer entries
    have lcm : leastCommonMultiple cluster.nserverGroups cluster.nserversPerGroup < 2 ^ 31 := by
      by_contra wide
      have each := (slice_pieces (by omega) cut).length_eq
      omega
    rw [sliceParams_eq lcm]
    apply Run.do_error.mpr
    refine .inr ⟨pieces, cut, ?_⟩
    apply Run.do_error.mpr
    exact .inl ((Numbering.params_range_iff params ⟨[], fun _ => [], 0, pieces⟩).mpr short)

/-- The iterator stays within the result of `Slice`, and no box means no slice. -/
structure SafeSlicing (cluster : ClusterProto) (params : List (Param α)) : Prop where
  inRange : ∀ fuel, sliceParams fuel cluster params ≠ .error .range
  noBox : leastCommonMultiple cluster.nserverGroups cluster.nserversPerGroup = 0 →
    ∀ fuel, ∃ sliced, sliceParams fuel cluster params = .ok (sliced, [])

/-- Without servers `SliceParams` is safe exactly if no parameter owns itself. -/
theorem safeSlicing_iff (cluster : ClusterProto) (params : List (Param α)) :
    SafeSlicing cluster params ↔
      (0 < cluster.nserverGroups ∧ 0 < cluster.nserversPerGroup) ∨ ∀ p ∈ params, p.id ≠ p.owner := by
  constructor
  · intro safe
    by_contra neither
    rw [not_or] at neither
    obtain ⟨no_servers, owned⟩ := neither
    have zero : leastCommonMultiple cluster.nserverGroups cluster.nserversPerGroup = 0 := by
      rw [leastCommonMultiple_eq_zero]
      omega
    apply safe.inRange 0
    apply (sliceParams_range_iff 0 cluster params).mpr
    rw [zero]
    refine ⟨[], rfl, ?_⟩
    exact List.length_pos_iff.mpr fun none => owned (ownerSizes_eq_nil.mp none)
  · intro condition
    constructor
    · intro fuel stopped
      obtain ⟨pieces, cut, short⟩ := (sliceParams_range_iff fuel cluster params).mp stopped
      rcases condition with ⟨groups, servers⟩ | none_owns
      · have each := (slice_pieces (leastCommonMultiple_pos groups servers) cut).length_eq
        omega
      · rw [ownerSizes_eq_nil.mpr none_owns] at short
        exact absurd short (Nat.not_lt_zero _)
    · intro zero fuel
      have none_owns : ∀ p ∈ params, p.id ≠ p.owner := by
        rcases condition with ⟨groups, servers⟩ | none_owns
        · have pos := leastCommonMultiple_pos groups servers
          omega
        · exact none_owns
      have cut : slice fuel (leastCommonMultiple cluster.nserverGroups cluster.nserversPerGroup) (ownerSizes params) =
          .ok [] := by rw [zero]; rfl
      have added : params.mapM (fun p => addSlices p []) = .ok (params.map id) := Run.mapM_pure fun p _ => rfl
      rw [sliceParams_eq (by omega)]
      refine ⟨params.map id, Run.do_ok.mpr ⟨[], cut, ?_⟩⟩
      refine Run.do_ok.mpr ⟨⟨[], fun _ => [], 0, []⟩, Numbering.params_none none_owns _, ?_⟩
      exact Run.do_ok.mpr ⟨_, added, rfl⟩

/-- A parameter of six floats in a cluster without servers. -/
theorem not_safeSlicing_noServers :
    let param : Param ℚ := (Param.setup ⟨fun _ _ => 0, 0⟩ ⟨0, 0, 1, 1⟩ 6).2
    sliceParams 20 ⟨1, 0, 1, 0⟩ [param] = .error .range ∧ ¬ SafeSlicing ⟨1, 0, 1, 0⟩ [param] := by
  intro param
  have stopped : sliceParams 20 ⟨1, 0, 1, 0⟩ [param] = .error .range := by
    apply (sliceParams_range_iff 20 ⟨1, 0, 1, 0⟩ [param]).mpr
    show ∃ pieces, slice 20 (leastCommonMultiple 0 0) _ = .ok pieces ∧ _
    rw [leastCommonMultiple_eq_zero.mpr (.inl rfl)]
    exact ⟨[], rfl, by decide⟩
  exact ⟨stopped, fun safe => safe.inRange 20 stopped⟩

end Singa
