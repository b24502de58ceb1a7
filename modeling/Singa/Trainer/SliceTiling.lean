import Singa.Trainer.SliceParams
import Singa.Utils.Repartition

/-!
# Slices tile every parameter

`Numbering.params` hands each owner a block of consecutive slice ids
(`Assigned`), `AddSlice` turns a block into a table of consecutive offsets
(`addSlices_numbered`), and a share gets the table of its owner.
-/

namespace Singa
set_option autoImplicit false

variable {α : Type}

/-! ## Tables -/

/-- The pieces `lens` with consecutive slice ids from `start` on. -/
def numbered : Nat → List Nat → List (Nat × Nat)
  | _, [] => []
  | start, len :: lens => (start, len) :: numbered (start + 1) lens

/-- The parameter with the table of the pieces `sizes`, the first one with id `start`. -/
def Param.withSlices (p : Param α) (start : Nat) (sizes : List Nat) : Param α :=
  { p with
    sliceStart := start
    numSlices := sizes.length
    sliceOffset := offsetsFrom 0 sizes
    sliceSize := sizes
    pendingPut := List.replicate sizes.length false
    pendingGet := List.replicate sizes.length false
    pendingUpdate := List.replicate sizes.length false }

/-- The tables of a parameter that `AddSlice` was never called on. -/
structure Param.Unsliced (p : Param α) : Prop where
  count : p.numSlices = 0
  offsets : p.sliceOffset = []
  sizes : p.sliceSize = []
  put : p.pendingPut = []
  get : p.pendingGet = []
  update : p.pendingUpdate = []

theorem offsetsFrom_append (start : Nat) (sizes : List Nat) (size : Nat) :
    offsetsFrom start (sizes ++ [size]) = offsetsFrom start sizes ++ [start + sizes.sum] := by
  induction sizes generalizing start with
  | nil => simp [offsetsFrom]
  | cons s sizes ih => simp [offsetsFrom, ih, Nat.add_assoc]

/-- The next offset of a table is the end of its last piece. -/
theorem offsetsFrom_last (sizes : List Nat) :
    (offsetsFrom 0 sizes).getLastD 0 + sizes.getLastD 0 = sizes.sum := by
  induction sizes using List.reverseRecOn with
  | nil => rfl
  | append_singleton sizes size _ => simp [offsetsFrom_append]

theorem Param.addSlice_first {p : Param α} (h : p.Unsliced) (start size : Nat) :
    p.addSlice start size = .ok (p.withSlices start [size]) := by
  simp [addSlice, pushSlice, withSlices, offsetsFrom, h.count, h.offsets, h.sizes, h.put, h.get, h.update]

theorem Param.addSlice_next (p : Param α) (start : Nat) {sizes : List Nat} (some : sizes ≠ []) (size : Nat) :
    (p.withSlices start sizes).addSlice (start + sizes.length) size =
      .ok (p.withSlices start (sizes ++ [size])) := by
  have pos : 0 < sizes.length := List.length_pos_iff.mpr some
  have next := offsetsFrom_last sizes
  simp only [addSlice, withSlices, pos, if_true, next]
  simp only [pushSlice, offsetsFrom_append, Nat.zero_add, List.length_append, List.length_singleton,
    List.replicate_succ']

theorem addSlices_next (p : Param α) (start : Nat) {sizes : List Nat} (some : sizes ≠ []) (lens : List Nat) :
    addSlices (p.withSlices start sizes) (numbered (start + sizes.length) lens) =
      .ok (p.withSlices start (sizes ++ lens)) := by
  induction lens generalizing sizes with
  | nil => simp [addSlices, numbered]; rfl
  | cons len lens ih =>
    have more : sizes ++ [len] ≠ [] := by simp
    have rest := ih more
    simp only [List.length_append, List.length_singleton, List.append_assoc, List.singleton_append] at rest
    simp only [addSlices, numbered, List.foldlM_cons, Param.addSlice_next p start some] at rest ⊢
    exact rest

/-- `AddSlice` on consecutive ids never fails its order check and builds the whole table. -/
theorem addSlices_numbered {p : Param α} (h : p.Unsliced) (start : Nat) {lens : List Nat} (some : lens ≠ []) :
    addSlices p (numbered start lens) = .ok (p.withSlices start lens) := by
  cases lens with
  | nil => exact absurd rfl some
  | cons len lens =>
    have one : [len] ≠ [] := by simp
    have rest := addSlices_next p start one lens
    simp only [addSlices, numbered, List.foldlM_cons, Param.addSlice_first h] at rest ⊢
    exact rest

/-! ## Numbering -/

/-- The parameters that own their values. -/
def owners (params : List (Param α)) : List (Param α) := params.filter fun p => p.id = p.owner

theorem ownerSizes_eq (params : List (Param α)) : ownerSizes params = (owners params).map Param.size := rfl

/-- Owner after owner has the next block of ids in the map. -/
def Assigned (table : Int → List (Nat × Nat)) : List (Param α) → List (List Nat) → Nat → Prop
  | p :: ps, lens :: its, start => table p.id = numbered start lens ∧ Assigned table ps its (start + lens.length)
  | _, _, _ => True

theorem Numbering.pieces_eq (id : Int) (lens : List Nat) (s : Numbering) :
    Numbering.pieces id lens s =
      ⟨s.slices ++ lens, Function.update s.paramid2slices id (s.paramid2slices id ++ numbered s.sliceId lens),
        s.sliceId + lens.length, s.it⟩ := by
  induction lens generalizing s with
  | nil => simp [pieces, numbered]
  | cons len lens ih =>
    rw [pieces, ih]
    simp [numbered, Nat.add_assoc, Nat.add_comm 1]

/-- The numbering loop reads one element of the iterator for each owner and hands out
the ids in the order of the owners. -/
theorem Numbering.params_assigned {ps : List (Param α)} {s : Numbering}
    (each : (owners ps).length = s.it.length) (nodup : ((owners ps).map Param.id).Nodup)
    (fresh : ∀ p ∈ owners ps, s.paramid2slices p.id = []) :
    ∃ s', Numbering.params ps s = .ok s' ∧ s'.slices = s.slices ++ s.it.flatten ∧
      Assigned s'.paramid2slices (owners ps) s.it s.sliceId ∧
      ∀ id, id ∉ (owners ps).map Param.id → s'.paramid2slices id = s.paramid2slices id := by
  induction ps generalizing s with
  | nil =>
    obtain ⟨slices, table, sliceId, it⟩ := s
    obtain rfl : it = [] := List.length_eq_zero_iff.mp each.symm
    exact ⟨_, rfl, by simp, trivial, fun _ _ => rfl⟩
  | cons p ps ih =>
    by_cases own : p.id = p.owner
    · have split : owners (p :: ps) = p :: owners ps := by simp [owners, own]
      rw [split] at each nodup fresh ⊢
      obtain ⟨slices, table, sliceId, it⟩ := s
      cases it with
      | nil => simp at each
      | cons lens it =>
        rw [List.map_cons, List.nodup_cons] at nodup
        have unused : ∀ q ∈ owners ps, q.id ≠ p.id := fun q mem same =>
          nodup.1 (same ▸ List.mem_map_of_mem mem)
        obtain ⟨s', hs', slices', assigned, others⟩ :=
          ih (s := ⟨slices ++ lens, Function.update table p.id (table p.id ++ numbered sliceId lens),
            sliceId + lens.length, it⟩) (by simpa using each) nodup.2
            (fun q mem => by
              dsimp only
              rw [Function.update_of_ne (unused q mem)]
              exact fresh q (List.mem_cons_of_mem _ mem))
        dsimp only at fresh slices' assigned others ⊢
        refine ⟨s', ?_, by simpa using slices', ⟨?_, assigned⟩, ?_⟩
        · rw [Numbering.params, if_pos own]
          dsimp only
          rw [pieces_eq]
          exact hs'
        · rw [others p.id nodup.1, Function.update_self, fresh p (by simp), List.nil_append]
        · intro id absent
          rw [List.map_cons, List.mem_cons, not_or] at absent
          rw [others id absent.2, Function.update_of_ne absent.1]
    · have split : owners (p :: ps) = owners ps := by simp [owners, own]
      rw [split] at each nodup fresh ⊢
      rw [Numbering.params, if_neg own]
      exact ih each nodup fresh

/-- The block of an owner starts where the blocks of the owners before it end. -/
theorem Assigned.block {table : Int → List (Nat × Nat)} {ps : List (Param α)} {its : List (List Nat)} {start : Nat}
    (assigned : Assigned table ps its start) {sizes : List Nat} (pieces : List.Forall₂ PiecesOf sizes its)
    (sized : sizes = ps.map Param.size) {p : Param α} (mem : p ∈ ps) :
    ∃ k lens, table p.id = numbered (start + k) lens ∧ PiecesOf p.size lens ∧
      ∀ i, i < lens.length → its.flatten[k + i]? = lens[i]? := by
  induction ps generalizing its start sizes with
  | nil => simp at mem
  | cons q ps ih =>
    rw [List.map_cons] at sized
    subst sized
    cases pieces with
    | @cons _ lens _ its piece rest =>
      rcases List.mem_cons.mp mem with rfl | mem
      · refine ⟨0, lens, assigned.1, piece, ?_⟩
        intro i bound
        rw [List.flatten_cons, Nat.zero_add, List.getElem?_append_left bound]
      · obtain ⟨k, lens', hk, piece', get⟩ := ih assigned.2 rest rfl mem
        refine ⟨lens.length + k, lens', by rw [hk, Nat.add_assoc], piece', ?_⟩
        intro i bound
        rw [List.flatten_cons, Nat.add_assoc, List.getElem?_append_right (by omega), Nat.add_sub_cancel_left]
        exact get i bound

/-! ## `SliceParams` -/

/-- What `SliceParams` is given: the parameters of a net before slicing. -/
structure Sliceable (params : List (Param α)) : Prop where
  nodup : (params.map Param.id).Nodup
  positive : ∀ p ∈ params, 0 < p.size
  unsliced : ∀ p ∈ params, p.Unsliced
  owned : ∀ p ∈ params, ∃ q ∈ params, q.id = p.owner ∧ q.owner = q.id ∧ q.size = p.size

/-- What `SliceParams` leaves: the ids of the owners' blocks, in order, are 0, 1, 2, …; every
table tiles its parameter; a share has the table of its owner; and `slices` lists the length
of every slice by its id. -/
structure SlicesTile (params : List (Param α)) (slices : List Nat) : Prop where
  ids : (owners params).flatMap (fun p => List.range' p.sliceStart p.numSlices) = List.range slices.length
  tiled : ∀ p ∈ params, p.Tiled
  shares : ∀ p ∈ params, ∀ q ∈ params, q.id = p.owner →
    p.sliceStart = q.sliceStart ∧ p.sliceOffset = q.sliceOffset ∧ p.sliceSize = q.sliceSize
  lengths : ∀ p ∈ params, ∀ k, k < p.numSlices → slices[p.sliceStart + k]? = p.sliceSize[k]?

theorem owners_nodup {params : List (Param α)} (h : (params.map Param.id).Nodup) :
    ((owners params).map Param.id).Nodup :=
  h.sublist (List.filter_sublist.map Param.id)

/-- The parameter with the table of the entries of its owner. -/
def Param.sliced (table : Int → List (Nat × Nat)) (p : Param α) : Param α :=
  p.withSlices (((table p.owner).map Prod.fst).headD 0) ((table p.owner).map Prod.snd)

@[simp] theorem numbered_map_snd (start : Nat) (lens : List Nat) : (numbered start lens).map Prod.snd = lens := by
  induction lens generalizing start with
  | nil => rfl
  | cons len lens ih => simp [numbered, ih]

theorem Param.sliced_eq {table : Int → List (Nat × Nat)} {p : Param α} {start : Nat} {lens : List Nat}
    (h : table p.owner = numbered start lens) (some : lens ≠ []) : p.sliced table = p.withSlices start lens := by
  cases lens with
  | nil => exact absurd rfl some
  | cons len lens => simp [sliced, h, numbered]

theorem owners_sliced (table : Int → List (Nat × Nat)) (params : List (Param α)) :
    owners (params.map (Param.sliced table)) = (owners params).map (Param.sliced table) := by
  simp only [owners, List.filter_map]
  rfl

/-- The blocks of the owners cover the ids of the slices one after another. -/
theorem Assigned.ids {table : Int → List (Nat × Nat)} {ps : List (Param α)} {its : List (List Nat)} {start : Nat}
    (assigned : Assigned table ps its start) (each : ps.length = its.length) (some : ∀ lens ∈ its, lens ≠ [])
    (own : ∀ p ∈ ps, p.id = p.owner) :
    (ps.map (Param.sliced table)).flatMap (fun p => List.range' p.sliceStart p.numSlices) =
      List.range' start its.flatten.length := by
  induction ps generalizing its start with
  | nil =>
    obtain rfl : its = [] := List.length_eq_zero_iff.mp each.symm
    rfl
  | cons p ps ih =>
    cases its with
    | nil => simp at each
    | cons lens its =>
      have first := assigned.1
      rw [own p (by simp)] at first
      have rest := ih assigned.2 (by simpa using each) (fun l mem => some l (List.mem_cons_of_mem _ mem))
        (fun q mem => own q (List.mem_cons_of_mem _ mem))
      rw [List.map_cons, List.flatMap_cons, rest, Param.sliced_eq first (some lens (by simp)),
        List.flatten_cons, List.length_append]
      exact List.range'_append_1

theorem PiecesOf.ne_nil {x : Nat} {pieces : List Nat} (h : PiecesOf x pieces) (pos : 0 < x) : pieces ≠ [] := by
  rintro rfl
  have := h.1
  simp only [List.sum_nil] at this
  omega

/-- `paramid2slices` after the numbering loop over `pieces`. -/
structure Paramid2Slices (params : List (Param α)) (pieces : List (List Nat)) (table : Int → List (Nat × Nat)) : Prop where
  block : ∀ q ∈ owners params, ∃ k lens, table q.id = numbered k lens ∧ PiecesOf q.size lens ∧
    ∀ i, i < lens.length → pieces.flatten[k + i]? = lens[i]?
  /-- No other id has slices. -/
  rest : ∀ id, id ∉ (owners params).map Param.id → table id = []
  ids : ((owners params).map (Param.sliced table)).flatMap (fun p => List.range' p.sliceStart p.numSlices) =
    List.range' 0 pieces.flatten.length

/-- The parameter after the calls of `AddSlice`; there are none without slices of the owner. -/
def Param.withTable (table : Int → List (Nat × Nat)) (p : Param α) : Param α :=
  if table p.owner = [] then p else p.sliced table

/-- The slices of an owner's share. -/
theorem Paramid2Slices.share {params : List (Param α)} {pieces : List (List Nat)} {table : Int → List (Nat × Nat)}
    (h : Paramid2Slices params pieces table) {p q : Param α} (hq : q ∈ owners params) (same : q.id = p.owner)
    (pos : 0 < q.size) : ∃ k lens, p.withTable table = p.withSlices k lens ∧ p.sliced table = p.withSlices k lens ∧
      table p.owner = numbered k lens ∧ lens ≠ [] ∧ PiecesOf q.size lens ∧
      ∀ i, i < lens.length → pieces.flatten[k + i]? = lens[i]? := by
  obtain ⟨k, lens, hk, piece, get⟩ := h.block q hq
  rw [same] at hk
  have some := piece.ne_nil pos
  have sliced : p.sliced table = p.withSlices k lens := Param.sliced_eq hk some
  refine ⟨k, lens, ?_, sliced, hk, some, piece, get⟩
  have entries : table p.owner ≠ [] := by
    rw [hk]
    cases lens with
    | nil => exact absurd rfl some
    | cons len lens => simp [numbered]
  rw [Param.withTable, if_neg entries, sliced]

/-- `SliceParams` returns when the `CHECK_LE` of `Slice` passes. -/
theorem sliceParams_paramid2slices (cluster : ClusterProto) (groups : 1 ≤ cluster.nserverGroups)
    (servers : 1 ≤ cluster.nserversPerGroup)
    (lcm : leastCommonMultiple cluster.nserverGroups cluster.nserversPerGroup < 2 ^ 31)
    {params : List (Param α)} (nodup : (params.map Param.id).Nodup)
    (positive : ∀ p ∈ params, 0 < p.size) (unsliced : ∀ p ∈ params, p.Unsliced) {fuel : Nat} {pieces : List (List Nat)}
    (hcut : slice fuel (leastCommonMultiple cluster.nserverGroups cluster.nserversPerGroup) (ownerSizes params) =
      .ok pieces) :
    ∃ table, Paramid2Slices params pieces table ∧
      sliceParams fuel cluster params = .ok (params.map (Param.withTable table), pieces.flatten) := by
  have boxes := leastCommonMultiple_pos groups servers
  have cut := slice_pieces boxes hcut
  have each : (owners params).length = pieces.length := by
    rw [← cut.length_eq, ownerSizes_eq, List.length_map]
  obtain ⟨s, numbering, slices, assigned, others⟩ :=
    Numbering.params_assigned (s := ⟨[], fun _ => [], 0, pieces⟩) each (owners_nodup nodup) (fun _ _ => rfl)
  dsimp only [List.nil_append] at slices assigned others
  have table : Paramid2Slices params pieces s.paramid2slices := by
    refine ⟨fun q hq => ?_, others, assigned.ids each ?_ fun p mem => by simpa using (List.mem_filter.mp mem).2⟩
    · obtain ⟨k, lens, hk, piece, get⟩ := assigned.block cut (ownerSizes_eq params) hq
      rw [Nat.zero_add] at hk
      exact ⟨k, lens, hk, piece, get⟩
    · intro lens mem
      obtain ⟨i, bound, rfl⟩ := List.mem_iff_getElem.mp mem
      have low : i < (ownerSizes params).length := by rwa [cut.length_eq]
      have piece := cut.get low bound
      obtain ⟨q, hq, size⟩ := List.mem_map.mp (List.getElem_mem low)
      refine PiecesOf.ne_nil piece ?_
      change 0 < (ownerSizes params)[i]
      rw [← size]
      exact positive q (List.mem_filter.mp hq).1
  have added : params.mapM (fun p => addSlices p (s.paramid2slices p.owner)) =
      .ok (params.map (Param.withTable s.paramid2slices)) := by
    refine Run.mapM_pure fun p mem => ?_
    by_cases owned : p.owner ∈ (owners params).map Param.id
    · obtain ⟨q, hq, same⟩ := List.mem_map.mp owned
      obtain ⟨k, lens, tabled, -, hk, some, -⟩ := table.share hq same (positive q (List.mem_filter.mp hq).1)
      rw [tabled, hk]
      exact addSlices_numbered (unsliced p mem) k some
    · rw [Param.withTable, if_pos (table.rest _ owned), table.rest _ owned]
      rfl
  refine ⟨s.paramid2slices, table, ?_⟩
  rw [sliceParams_eq lcm]
  refine Run.do_ok.mpr ⟨pieces, hcut, Run.do_ok.mpr ⟨s, numbering, ?_⟩⟩
  exact Run.do_ok.mpr ⟨_, added, by rw [slices]; rfl⟩

/-- `Slice`'s loop ends, and when its `CHECK_LE` passes, `SliceParams` returns, with only the slice tables changed,
and the tables tile. -/
def TilesParams (cluster : ClusterProto) (params : List (Param α)) : Prop :=
  ∃ n, ∀ fuel ≥ n, match sliceParams fuel cluster params with
    | .ok (params', slices) => List.Forall₂ (fun p p' => p' = p.withSlices p'.sliceStart p'.sliceSize) params params' ∧
        SlicesTile params' slices
    | .error e => e = .boxes

variable {cluster : ClusterProto} {params : List (Param α)}

theorem Sliceable.sized (h : Sliceable params) : ∀ x ∈ ownerSizes params, 0 < x := by
  intro x mem
  obtain ⟨p, hp, rfl⟩ := List.mem_map.mp mem
  exact h.positive p (List.mem_filter.mp hp).1

/-- `SliceParams` when the `CHECK_LE` of `Slice` passes. -/
theorem Sliceable.sliceParams_ok (groups : 1 ≤ cluster.nserverGroups) (servers : 1 ≤ cluster.nserversPerGroup)
    (lcm : leastCommonMultiple cluster.nserverGroups cluster.nserversPerGroup < 2 ^ 31) (h : Sliceable params)
    {fuel : Nat} {pieces : List (List Nat)}
    (hcut : slice fuel (leastCommonMultiple cluster.nserverGroups cluster.nserversPerGroup) (ownerSizes params) =
      .ok pieces) :
    ∃ params' slices, sliceParams fuel cluster params = .ok (params', slices) ∧
      List.Forall₂ (fun p p' => p' = p.withSlices p'.sliceStart p'.sliceSize) params params' ∧
      SlicesTile params' slices := by
  obtain ⟨table, here, run⟩ :=
    sliceParams_paramid2slices cluster groups servers lcm h.nodup h.positive h.unsliced hcut
  -- every parameter, owner or share, finds the block of its owner
  have block : ∀ p ∈ params, ∃ k lens, p.withTable table = p.withSlices k lens ∧ p.sliced table = p.withSlices k lens ∧
      PiecesOf p.size lens ∧ ∀ i, i < lens.length → pieces.flatten[k + i]? = lens[i]? := by
    intro p mem
    obtain ⟨q, hq, same, own, size⟩ := h.owned p mem
    have owner : q ∈ owners params := List.mem_filter.mpr ⟨hq, by simpa using own.symm⟩
    obtain ⟨k, lens, tabled, sliced, -, -, piece, get⟩ := here.share owner same (h.positive q hq)
    exact ⟨k, lens, tabled, sliced, size ▸ piece, get⟩
  have all : params.map (Param.withTable table) = params.map (Param.sliced table) := by
    refine List.map_congr_left fun p mem => ?_
    obtain ⟨k, lens, tabled, sliced, -⟩ := block p mem
    rw [tabled, sliced]
  rw [all] at run
  refine ⟨_, _, run, ?_, ?_, ?_, ?_, ?_⟩
  · rw [List.forall₂_map_right_iff, List.forall₂_same]
    intro p _
    rfl
  · rw [owners_sliced, List.range_eq_range']
    exact here.ids
  · intro p' mem
    obtain ⟨p, hp, rfl⟩ := List.mem_map.mp mem
    obtain ⟨k, lens, -, sliced, piece, -⟩ := block p hp
    rw [sliced]
    exact ⟨rfl, rfl, piece.2, piece.1⟩
  · intro p' hp' q' hq' same
    obtain ⟨p, hp, rfl⟩ := List.mem_map.mp hp'
    obtain ⟨q, hq, rfl⟩ := List.mem_map.mp hq'
    have owner : q.owner = p.owner := by
      -- the listed parameter with the id of the owner is unique, and owns itself
      obtain ⟨r, hr, id, own, _⟩ := h.owned p hp
      have : q = r := List.inj_on_of_nodup_map h.nodup hq hr (by rw [id]; exact same)
      rw [this, own, id]
    simp only [Param.sliced, owner]
    exact ⟨rfl, rfl, rfl⟩
  · intro p' mem k bound
    obtain ⟨p, hp, rfl⟩ := List.mem_map.mp mem
    obtain ⟨start, lens, -, sliced, -, get⟩ := block p hp
    rw [sliced] at bound ⊢
    exact get k bound

/-- Where the total of the owners is no `int`, adding it up is undefined. -/
theorem sliceParams_of_total (groups : 1 ≤ cluster.nserverGroups) (servers : 1 ≤ cluster.nserversPerGroup)
    (wide : ¬ (ownerSizes params).sum < 2 ^ 31) (fuel : Nat) : sliceParams fuel cluster params = .error .overflow := by
  by_cases lcm : leastCommonMultiple cluster.nserverGroups cluster.nserversPerGroup < 2 ^ 31
  · rw [sliceParams_eq lcm, slice_overflow (leastCommonMultiple_pos groups servers) wide]
    rfl
  · exact sliceParams_overflow lcm

theorem TilesParams.ne_overflow (tiles : TilesParams cluster params) :
    ∃ fuel, sliceParams fuel cluster params ≠ .error .overflow := by
  obtain ⟨n, ends⟩ := tiles
  refine ⟨n, fun stopped => ?_⟩
  have here := ends n le_rfl
  rw [stopped] at here
  cases here

/-- **Parameter slices tile every parameter** exactly when the least common multiple and the total of the owners are
`int`s. -/
theorem sliceParams_tiles_iff (cluster : ClusterProto) (groups : 1 ≤ cluster.nserverGroups)
    (servers : 1 ≤ cluster.nserversPerGroup) {params : List (Param α)} (h : Sliceable params) :
    TilesParams cluster params ↔ leastCommonMultiple cluster.nserverGroups cluster.nserversPerGroup < 2 ^ 31 ∧
      (ownerSizes params).sum < 2 ^ 31 := by
  have boxes := leastCommonMultiple_pos groups servers
  constructor
  · intro tiles
    obtain ⟨fuel, run⟩ := tiles.ne_overflow
    refine ⟨lcm_lt_of_sliceParams run, ?_⟩
    by_contra wide
    exact run (sliceParams_of_total groups servers wide fuel)
  · rintro ⟨lcm, small⟩
    refine ⟨2 * (ownerSizes params).sum + 2, fun fuel enough => ?_⟩
    have ends := slice_ends boxes h.sized enough
    cases hcut : slice fuel (leastCommonMultiple cluster.nserverGroups cluster.nserversPerGroup) (ownerSizes params) with
    | ok pieces =>
      obtain ⟨params', slices, run, only, tile⟩ := h.sliceParams_ok groups servers lcm hcut
      rw [run]
      exact ⟨only, tile⟩
    | error e =>
      rw [hcut] at ends
      have stopped : sliceParams fuel cluster params = .error e := by
        rw [sliceParams_eq lcm, hcut]
        rfl
      rw [stopped]
      rcases slice_error boxes small hcut with rfl | ⟨rfl, -⟩
      · exact (ends rfl).elim
      · rfl

/-- A parameter that was just set up. -/
def setupParam (id owner : Int) (size : Nat) : Param ℚ := (Param.setup ⟨fun _ _ => 0, 0⟩ ⟨id, owner, 1, 1⟩ size).2

/-- Two owners and a share of the first one. -/
theorem sliceable_setupParams {m n : Nat} (first : 0 < m) (second : 0 < n) :
    Sliceable [setupParam 0 0 m, setupParam 1 0 m, setupParam 2 2 n] := by
  constructor
  · show ([0, 1, 2] : List Int).Nodup
    decide
  · simp only [List.mem_cons, List.not_mem_nil, or_false]
    rintro p (rfl | rfl | rfl)
    · exact first
    · exact first
    · exact second
  · simp only [List.mem_cons, List.not_mem_nil, or_false]
    rintro p (rfl | rfl | rfl) <;> exact ⟨rfl, rfl, rfl, rfl, rfl, rfl⟩
  · simp only [List.mem_cons, List.not_mem_nil, or_false]
    rintro p (rfl | rfl | rfl)
    · exact ⟨setupParam 0 0 m, by simp, rfl, rfl, rfl⟩
    · exact ⟨setupParam 0 0 m, by simp, rfl, rfl, rfl⟩
    · exact ⟨setupParam 2 2 n, by simp, rfl, rfl, rfl⟩

theorem ownerSizes_setupParams (m n : Nat) : ownerSizes [setupParam 0 0 m, setupParam 1 0 m, setupParam 2 2 n] = [m, n] := rfl

/-- One server group of two servers; two parameters of 6 and 3 floats and a share of the first. -/
theorem sliceParams_tiles_share : TilesParams ⟨1, 1, 1, 2⟩ [setupParam 0 0 6, setupParam 1 0 6, setupParam 2 2 3] := by
  refine (sliceParams_tiles_iff ⟨1, 1, 1, 2⟩ (by decide) (by decide)
    (sliceable_setupParams (by decide) (by decide))).mpr ⟨?_, ?_⟩
  · rw [leastCommonMultiple_one_two]
    decide
  · rw [ownerSizes_setupParams]
    decide

/-- The same with two owners of 2^30 floats: `avg` is too large for an `int`. -/
theorem gigaParams_not_tiled : Sliceable [setupParam 0 0 (2 ^ 30), setupParam 1 0 (2 ^ 30), setupParam 2 2 (2 ^ 30)] ∧
    ¬ TilesParams ⟨1, 1, 1, 2⟩ [setupParam 0 0 (2 ^ 30), setupParam 1 0 (2 ^ 30), setupParam 2 2 (2 ^ 30)] := by
  refine ⟨sliceable_setupParams (by decide) (by decide), fun tiles => ?_⟩
  obtain ⟨fuel, run⟩ := tiles.ne_overflow
  apply run
  apply sliceParams_of_total (by decide) (by decide)
  rw [ownerSizes_setupParams]
  decide

end Singa
