import Singa.Utils.Partition

/-!
# The boxes of `Slice`

`Slice` deals the sizes to boxes and cuts those that are too large for what is
left; only the number of boxes is checked, and the box of a piece is not kept.
`sliceBoxes` keeps it: `nbox` as the pass that cuts the piece finds it. It is
the greedy run of `CutFit`, which opens no box without need, and dealing the
pieces again with `PartitionSlices` puts each back where it was cut.
-/

namespace Singa
set_option autoImplicit false

open CutFit

/-- The boxes of the pieces that a pass has cut. -/
def Slicer.cutIn (s s' : Slicer) : List Nat := List.replicate (s'.slice.length - s.slice.length) s.nbox

/-- A pass of `Slice`'s `while` loop that also keeps the boxes. -/
def Slicer.traced (avg diff : Nat) (s : Slicer × List Nat) : (Slicer × List Nat) ⊕ (Slicer × List Nat) :=
  match s.1.body avg diff with
  | .inl s' => .inl (s', s.2 ++ s.1.cutIn s')
  | .inr s' => .inr (s', s.2)

/-- The loop of `sliceSizes` with the boxes of the pieces. -/
def boxesOf (fuel avg diff : Nat) : List Nat → Nat → Nat → Run (List (List Nat))
  | [], _, _ => .ok []
  | x :: sizes, capacity, nbox => do
    let s ← Run.ofLoop (Loop.run (Slicer.traced avg diff) fuel (⟨capacity, nbox, x, []⟩, []))
    let boxes ← boxesOf fuel avg diff sizes s.1.capacity s.1.nbox
    return s.2 :: boxes

/-- The boxes that `Slice` cuts its pieces for. -/
def sliceBoxes (fuel num : Nat) (sizes : List Nat) : Run (List (List Nat)) := do
  let avg ← addSizes sizes
  let avg := avg / num + avg % num
  boxesOf fuel avg (avg / 10) sizes avg 0

variable {avg diff fuel : Nat}

/-- Keeping the boxes changes nothing. -/
theorem Slicer.traced_fst (s : Slicer) (boxes : List Nat) :
    (Loop.run (Slicer.traced avg diff) fuel (s, boxes)).map Prod.fst = Loop.run (Slicer.body avg diff) fuel s := by
  have same (s : Slicer × List Nat) : s.1.body avg diff = (Slicer.traced avg diff s).map Prod.fst Prod.fst := by
    rw [Slicer.traced]
    cases s.1.body avg diff <;> rfl
  exact (Loop.run_map Prod.fst Prod.fst same fuel (s, boxes)).symm

/-- What a pass that pushes `n` adds, with its boxes. -/
def pushed (n nbox : Nat) : List (Nat × Nat) := if n = 0 then [] else [(n, nbox)]

theorem pushSize_eq (l : List Nat) (n nbox : Nat) : pushSize l n = l ++ (pushed n nbox).map Prod.fst := by
  rw [pushSize, pushed]
  split_ifs <;> simp

theorem Slicer.cutIn_push {s s' : Slicer} {n : Nat} (push : s'.slice = pushSize s.slice n) :
    s.cutIn s' = (pushed n s.nbox).map Prod.snd := by
  rw [cutIn, push, pushSize, pushed]
  split_ifs <;> simp

/-- What is left of a size, in front of the others. -/
def leftOf (x : Nat) (items : List Nat) : List Nat := if x = 0 then items else x :: items

/-- The `while` loop for one size is a part of the greedy run. -/
theorem Slicer.traced_dealt {s r : Slicer} {boxes boxes' : List Nat}
    (h : Loop.run (Slicer.traced avg diff) fuel (s, boxes) = some (r, boxes')) :
    ∃ new : List (Nat × Nat), r.slice = s.slice ++ new.map Prod.fst ∧ boxes' = boxes ++ new.map Prod.snd ∧
      ∀ items out last, Dealt avg diff r.capacity r.nbox items out last →
        Dealt avg diff s.capacity s.nbox (leftOf s.x items) (new ++ out) last := by
  induction fuel generalizing s boxes with
  | zero => cases h
  | succ fuel ih =>
    cases pass : s.body avg diff with
    | inr s' =>
      have leave : Slicer.traced avg diff (s, boxes) = .inr (s', boxes) := by rw [Slicer.traced, pass]
      rw [Loop.run_inr leave] at h
      cases h
      obtain ⟨rfl, zero⟩ := Slicer.body_inr pass
      exact ⟨[], by simp, by simp, fun items out last dealt => by rwa [leftOf, if_pos zero]⟩
    | inl s' =>
      have go : Slicer.traced avg diff (s, boxes) = .inl (s', boxes ++ s.cutIn s') := by rw [Slicer.traced, pass]
      rw [Loop.run_inl go] at h
      obtain ⟨new, slice, trace, dealt⟩ := ih h
      -- what the pass pushes, and the part of the greedy run it stands for
      suffices one : ∃ n, s'.slice = pushSize s.slice n ∧ ∀ items out last,
          Dealt avg diff s'.capacity s'.nbox (leftOf s'.x items) out last →
            Dealt avg diff s.capacity s.nbox (leftOf s.x items) (pushed n s.nbox ++ out) last by
        obtain ⟨n, push, first⟩ := one
        refine ⟨pushed n s.nbox ++ new, ?_, ?_, fun items out last later => ?_⟩
        · rw [slice, push, pushSize_eq _ _ s.nbox, List.map_append, List.append_assoc]
        · rw [trace, Slicer.cutIn_push push, List.map_append, List.append_assoc]
        · rw [List.append_assoc]
          exact first items _ last (dealt items out last later)
      obtain ⟨some, ⟨rfl, fits⟩ | ⟨rfl, full, fits⟩ | ⟨rfl, large, enough⟩ | ⟨rfl, large, few⟩⟩ := Slicer.body_inl pass
      · refine ⟨s.x, rfl, fun items out last later => ?_⟩
        rw [leftOf, if_neg some.ne', pushed, if_neg some.ne']
        exact .put (by omega) later
      · refine ⟨s.x, rfl, fun items out last later => ?_⟩
        rw [leftOf, if_neg some.ne', pushed, if_neg some.ne']
        refine .put fits ?_
        rw [Nat.sub_eq_zero_of_le full.le]
        exact later
      · refine ⟨s.capacity, rfl, fun items out last later => ?_⟩
        rw [leftOf, if_neg (by simp only; omega)] at later
        rw [leftOf, if_neg some.ne', pushed]
        split_ifs with empty
        · refine .next (.inl empty) large ?_
          rwa [empty] at later
        · exact .cut (Nat.pos_of_ne_zero empty) enough large later
      · refine ⟨0, (by rw [pushSize, if_pos rfl]), fun items out last later => ?_⟩
        rw [leftOf, if_neg some.ne'] at later ⊢
        exact .next (.inr few) large later

/-- **`Slice` is the greedy run**: its pieces with the boxes they are cut for. -/
theorem sliceSizes_dealt {sizes : List Nat} (sized : ∀ x ∈ sizes, 0 < x) {capacity nbox last : Nat}
    {pieces : List (List Nat)} (h : sliceSizes fuel avg diff sizes capacity nbox = .ok (pieces, last)) :
    ∃ boxes out, boxesOf fuel avg diff sizes capacity nbox = .ok boxes ∧ pieces.flatten = out.map Prod.fst ∧
      boxes.flatten = out.map Prod.snd ∧ Dealt avg diff capacity nbox sizes out last := by
  induction sizes generalizing capacity nbox pieces with
  | nil =>
    cases h
    exact ⟨[], [], rfl, rfl, rfl, .nil⟩
  | cons x sizes ih =>
    obtain ⟨some, sized⟩ := List.forall_mem_cons.mp sized
    obtain ⟨r, run, h⟩ := Run.do_ok.mp h
    obtain ⟨⟨others, _⟩, rest, h⟩ := Run.do_ok.mp h
    cases h
    rw [Run.ofLoop_eq_ok, ← Slicer.traced_fst _ []] at run
    obtain ⟨⟨r', trace⟩, traced, same⟩ := Option.map_eq_some_iff.mp run
    cases same
    obtain ⟨boxes, out, more, fst, snd, dealt⟩ := ih sized rest
    obtain ⟨new, slice, cutIn, first⟩ := Slicer.traced_dealt traced
    refine ⟨trace :: boxes, new ++ out, ?_, ?_, ?_, ?_⟩
    · exact Run.do_ok.mpr ⟨_, Run.ofLoop_eq_ok.mpr traced, Run.do_ok.mpr ⟨_, more, rfl⟩⟩
    · rw [List.flatten_cons, fst, slice, List.nil_append, List.map_append]
    · rw [List.flatten_cons, snd, cutIn, List.nil_append, List.map_append]
    · have whole := first sizes out last dealt
      rwa [leftOf, if_neg some.ne'] at whole

/-! ## The number of boxes -/

variable {num : Nat} {sizes : List Nat} {pieces : List (List Nat)}

theorem slice_dealt (pos : 0 < num) (sized : ∀ x ∈ sizes, 0 < x) (h : slice fuel num sizes = .ok pieces) :
    ∃ boxes out last, sliceBoxes fuel num sizes = .ok boxes ∧ pieces.flatten = out.map Prod.fst ∧
      boxes.flatten = out.map Prod.snd ∧ last ≤ num ∧
      Dealt (average num sizes) (average num sizes / 10) (average num sizes) 0 sizes out last := by
  have small := sum_lt_of_slice pos h
  rw [slice_eq pos small] at h
  obtain ⟨⟨pieces, last⟩, cut, h⟩ := Run.do_ok.mp h
  simp only at h
  split at h
  · rename_i few
    cases h
    obtain ⟨boxes, out, made, fst, snd, dealt⟩ := sliceSizes_dealt sized cut
    refine ⟨boxes, out, last, Run.do_ok.mpr ⟨sizes.sum, ?_, made⟩, fst, snd, few, dealt⟩
    rw [addSizes_eq, asInt_of_lt small]
  · cases h

/-- The boxes hold all sizes, so there is room unless there is nothing to cut. -/
theorem average_pos_of_mem {x : Nat} (sized : ∀ x ∈ sizes, 0 < x) (mem : x ∈ sizes) : 0 < average num sizes :=
  average_pos ((sized x mem).trans_le (List.single_le_sum (by simp) x mem))

/-- Cutting the sizes can only run out of fuel. -/
theorem sliceSizes_error {sizes : List Nat} {capacity nbox : Nat} {e : Abort}
    (h : sliceSizes fuel avg diff sizes capacity nbox = .error e) : e = .fuel := by
  induction sizes generalizing capacity nbox with
  | nil => cases h
  | cons x sizes ih =>
    rw [sliceSizes] at h
    cases run : Loop.run (Slicer.body avg diff) fuel ⟨capacity, nbox, x, []⟩ with
    | none =>
      rw [run] at h
      cases h
      rfl
    | some s =>
      rw [run] at h
      cases rest : sliceSizes fuel avg diff sizes s.capacity s.nbox with
      | error e' =>
        simp only [Run.ofLoop, rest, bind, Except.bind] at h
        cases h
        exact ih rest
      | ok r =>
        simp only [Run.ofLoop, rest, bind, Except.bind] at h
        cases h

/-- How `Slice` can fail, and what its `CHECK` saw. -/
theorem slice_error (pos : 0 < num) (small : sizes.sum < 2 ^ 31) {e : Abort} (h : slice fuel num sizes = .error e) :
    e = .fuel ∨ e = .boxes ∧ ∃ pieces last, sliceSizes fuel (average num sizes) (average num sizes / 10) sizes
      (average num sizes) 0 = .ok (pieces, last) ∧ num < last := by
  rw [slice_eq pos small] at h
  cases cut : sliceSizes fuel (average num sizes) (average num sizes / 10) sizes (average num sizes) 0 with
  | error e' =>
    simp only [cut, bind, Except.bind] at h
    cases h
    exact .inl (sliceSizes_error cut)
  | ok r =>
    simp only [cut, bind, Except.bind] at h
    split at h
    · cases h
    · cases h
      exact .inr ⟨rfl, r.1, r.2, rfl, by omega⟩

/-- **The `CHECK` of `Slice` holds exactly when `num + 1` boxes are enough for some packing** that keeps the
order and cuts a size only to fill a box. -/
theorem slice_boxes_iff (pos : 1 ≤ num) (sized : ∀ x ∈ sizes, 0 < x) (small : sizes.sum < 2 ^ 31) :
    (∀ fuel, slice fuel num sizes ≠ .error .boxes) ↔
      ∃ n ≤ num, Packs (average num sizes) (average num sizes / 10) (average num sizes) sizes n := by
  constructor
  · intro check
    have ends := slice_ends pos sized le_rfl
    have check := check (2 * sizes.sum + 2)
    cases run : slice (2 * sizes.sum + 2) num sizes with
    | ok pieces =>
      obtain ⟨_, _, last, -, -, -, few, dealt⟩ := slice_dealt pos sized run
      obtain ⟨n, same, packs⟩ := dealt.packs
      exact ⟨n, by omega, packs⟩
    | error e =>
      rw [run] at ends check
      rcases slice_error pos small run with rfl | ⟨rfl, -⟩
      · exact (ends rfl).elim
      · exact (check rfl).elim
  · intro packing fuel failed
    obtain ⟨-, pieces, last, cut, many⟩ := (slice_error pos small failed).resolve_left (by simp)
    cases sizes with
    | nil =>
      cases cut
      omega
    | cons x items =>
      have room : 0 < average num (x :: items) := average_pos_of_mem sized List.mem_cons_self
      obtain ⟨_, _, -, -, -, dealt⟩ := sliceSizes_dealt sized cut
      have few := (dealt.last_le_iff (Nat.div_le_self _ 10) room).mpr packing
      omega

/-- Two parameters of three and five floats for two servers. -/
theorem twoBoxes_enough : slice 20 2 [3, 5] = .ok [[3], [1, 4]] ∧ ∀ fuel, slice fuel 2 [3, 5] ≠ .error .boxes := by
  have packs : Packs 4 0 4 [3, 5] 1 := .put (by decide) (.cut (by decide) (by decide) (.put (by decide) .nil))
  exact ⟨by decide +kernel, (slice_boxes_iff (by decide) (by decide) (by decide)).mpr ⟨1, by decide, packs⟩⟩

/-- One parameter of 19 floats and then 39 times one of four and one of fifteen, for 38 boxes of twenty: each box is
left with one float, too little for the next parameter and too little to cut, and forty boxes are needed. -/
theorem fortyBoxes_needed : slice 100 38 (19 :: (List.replicate 39 [4, 15]).flatten) = .error .boxes := by
  decide +kernel

/-- The boxes suffice when what they may give away, less than a tenth of each, leaves room for the total. -/
theorem slice_boxes_of_sum_lt (pos : 1 ≤ num) (sized : ∀ x ∈ sizes, 0 < x) (small : sizes.sum < 2 ^ 31)
    (room : sizes.sum < (num + 1) * (average num sizes - (average num sizes / 10 - 1))) :
    ∀ fuel, slice fuel num sizes ≠ .error .boxes := by
  intro fuel failed
  obtain ⟨-, pieces, last, cut, many⟩ := (slice_error pos small failed).resolve_left (by simp)
  obtain ⟨_, _, -, -, -, dealt⟩ := sliceSizes_dealt sized cut
  have used := (dealt.mul_le_sum le_rfl).2
  rw [Nat.sub_zero, Nat.sub_self] at used
  have more := Nat.mul_le_mul_right (average num sizes - (average num sizes / 10 - 1)) (show num + 1 ≤ last by omega)
  omega

end Singa
