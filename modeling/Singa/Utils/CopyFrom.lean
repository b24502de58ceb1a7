import Singa.Utils.Blob

/-!
# `Blob::CopyFrom`

The documentation promises a copy or, without the flag, an abort for blobs of
different shapes. The shapes are compared over the dimensions of the receiver
only: a receiver whose dimensions are the first ones of the source passes for
equal, and a source whose dimensions are the first ones of the receiver is read
past its end.
-/

namespace Singa
set_option autoImplicit false

open BlobHeap BlobProg

/-- A blob that has been shaped: positive dimensions, their product as the count, and a memory. -/
structure FloatBlob.WellShaped (x : FloatBlob) : Prop where
  positive : ∀ d ∈ x.shape, 0 < d
  count : x.count = x.shape.prod
  data : x.data ≠ none

theorem FloatBlob.WellShaped.count_pos {x : FloatBlob} (h : x.WellShaped) : 0 < x.count := by
  rw [h.count]
  exact List.prod_pos h.positive

variable {α : Type}

namespace BlobHeap

/-- `b` in `s'` is what `source` was in `s`. -/
structure Copied (s s' : BlobHeap α) (b source : Nat) : Prop where
  shape : (s'.blob b).shape = (s.blob source).shape
  count : (s'.blob b).count = (s.blob source).count
  values : s'.values b = s.values source

variable [Zero α]

/-- What is promised of `CopyFrom`. -/
def CopyRight (s : BlobHeap α) (b source : Nat) : Bool → Prop
  | true => ∃ s', copyFrom b source true s = .ok () s' ∧ s.Copied s' b source
  | false =>
    (∃ s', copyFrom b source false s = .error .copyShape s' ∧ s'.blob b = s.blob b ∧ s'.values b = s.values b) ∨
    ((s.blob b).shape = (s.blob source).shape ∧
      ∃ s', copyFrom b source false s = .ok () s' ∧ s'.values b = s.values source)

/-- The shapes are equal, or neither is the beginning of the other; and the memory of `b`, where it
is kept, is large enough. -/
def CopyFits (s : BlobHeap α) (b source : Nat) (resize : Bool) : Prop :=
  ((s.blob b).shape = (s.blob source).shape ∧ (s.blob b).count ≤ s.allocated b) ∨
  (¬ (s.blob b).shape <+: (s.blob source).shape ∧ ¬ (s.blob source).shape <+: (s.blob b).shape ∧
    (resize = true → (s.blob source).count ≤ (s.blob b).capacity → (s.blob source).count ≤ s.allocated b))

end BlobHeap

section Copy

variable {b source : Nat} {s : BlobHeap α}

theorem allocated_of_data {m : Nat} (data : (s.blob b).data = some m) : s.allocated b = (s.elements m).length := by
  rw [allocated, data, size]

/-- Copying into a memory with room for as many elements as the source has. -/
theorem copyData_ok {t : BlobHeap α} {dst src : Nat} (receiver : (t.blob b).data = some dst)
    (sender : (t.blob source).data = some src) (count : (t.blob b).count = (t.blob source).count)
    (pos : 0 < (t.blob b).count) (room : (t.blob b).count ≤ t.allocated b)
    (covers : (t.blob source).count ≤ t.allocated source) :
    ∃ s', copyData b source t = .ok () s' ∧ s'.blob = t.blob ∧ s'.values b = t.values source := by
  rw [allocated_of_data receiver] at room
  rw [allocated_of_data sender] at covers
  have read : (t.blob b).count ≤ (t.elements src).length := by rw [count]; exact covers
  have old : t.elements dst ≠ [] := by
    rw [← List.length_pos_iff]
    omega
  rw [copyData_apply receiver sender, store_apply, if_pos ⟨room, read⟩]
  refine ⟨_, rfl, rfl, ?_⟩
  simp only [values, write_blob, receiver, sender]
  rw [write_elements t old, if_pos rfl, ← count]
  have taken : ((t.elements src).take (t.blob b).count).length = (t.blob b).count := by
    rw [List.length_take]
    omega
  rw [List.take_append_of_le_length taken.ge, List.take_take, Nat.min_self]

theorem copyData_blob {t s' : BlobHeap α} {dst src : Nat} (receiver : (t.blob b).data = some dst)
    (sender : (t.blob source).data = some src) (copied : copyData b source t = .ok () s') : s'.blob = t.blob := by
  rw [copyData_apply receiver sender, store_apply] at copied
  split at copied
  · cases copied
    rfl
  · cases copied

/-- Without room the copy runs over the end. -/
theorem copyData_over {t : BlobHeap α} {dst src : Nat} (receiver : (t.blob b).data = some dst)
    (sender : (t.blob source).data = some src) (short : ¬ (t.blob b).count ≤ t.allocated b) :
    copyData b source t = .error .range t := by
  rw [allocated_of_data receiver] at short
  rw [copyData_apply receiver sender, store_apply, if_neg fun both => short both.1]

theorem copyData_error {t s' : BlobHeap α} {dst src : Nat} {e : Abort} (receiver : (t.blob b).data = some dst)
    (sender : (t.blob source).data = some src) (stopped : copyData b source t = .error e s') : e = .range := by
  rw [copyData_apply receiver sender, store_apply] at stopped
  split at stopped <;> cases stopped
  rfl

variable [Zero α]

theorem reshaped_wellShaped {shape : List Nat} (positive : ∀ d ∈ shape, 0 < d)
    (some_memory : (s.blob b).data ≠ none ∨ (s.blob b).capacity < shape.prod) :
    ((s.reshaped b shape).blob b).WellShaped := by
  constructor
  · rw [reshaped_shape]
    exact positive
  · rw [reshaped_count, reshaped_shape]
  · exact reshaped_data s some_memory

/-- `Reshape` of another blob keeps the values of one that has its elements. -/
theorem reshaped_values (shape : List Nat) (other : source ≠ b) (shaped : (s.blob source).WellShaped)
    (covers : (s.blob source).count ≤ s.allocated source) :
    (s.reshaped b shape).values source = s.values source ∧
      (s.reshaped b shape).allocated source = s.allocated source := by
  obtain ⟨src, data⟩ := Option.ne_none_iff_exists'.mp shaped.data
  have kept : (s.reshaped b shape).blob source = s.blob source := reshaped_blob_ne s other shape
  have old : s.elements src ≠ [] := by
    rw [← List.length_pos_iff, ← allocated_of_data data]
    exact lt_of_lt_of_le shaped.count_pos covers
  simp only [values, allocated, size, kept, data, reshaped_elements_old s b shape old, and_self]

/-- Equal shapes. -/
theorem copyFrom_same (resize : Bool) (shaped : (s.blob b).WellShaped) (source_shaped : (s.blob source).WellShaped)
    (covers : (s.blob source).count ≤ s.allocated source) (same : (s.blob b).shape = (s.blob source).shape)
    (room : (s.blob b).count ≤ s.allocated b) :
    ∃ s', copyFrom b source resize s = .ok () s' ∧ s.Copied s' b source := by
  obtain ⟨dst, receiver⟩ := Option.ne_none_iff_exists'.mp shaped.data
  obtain ⟨src, sender⟩ := Option.ne_none_iff_exists'.mp source_shaped.data
  have count : (s.blob b).count = (s.blob source).count := by rw [shaped.count, source_shaped.count, same]
  obtain ⟨s', copied, blobs, values⟩ := copyData_ok receiver sender count shaped.count_pos room covers
  refine ⟨s', ?_, ?_⟩
  · rw [copyFrom_pre (same ▸ List.prefix_refl _)]
    exact copied
  · exact ⟨by rw [blobs, same], by rw [blobs, count], values⟩

/-- Shapes of which neither is the beginning of the other, with the flag. -/
theorem copyFrom_differ (shaped : (s.blob b).WellShaped) (source_shaped : (s.blob source).WellShaped)
    (covers : (s.blob source).count ≤ s.allocated source) (not_pre : ¬ (s.blob b).shape <+: (s.blob source).shape)
    (not_post : ¬ (s.blob source).shape <+: (s.blob b).shape) :
    if (s.blob source).count ≤ (s.blob b).capacity ∧ s.allocated b < (s.blob source).count then
      copyFrom b source true s = .error .range (s.reshaped b (s.blob source).shape)
    else ∃ s', copyFrom b source true s = .ok () s' ∧ s.Copied s' b source := by
  have other : source ≠ b := by
    rintro rfl
    exact not_pre (List.prefix_refl _)
  have reshaped_b := reshaped_wellShaped (b := b) (s := s) source_shaped.positive (.inl shaped.data)
  have kept : (s.reshaped b (s.blob source).shape).blob source = s.blob source := reshaped_blob_ne s other _
  obtain ⟨same_values, same_room⟩ := reshaped_values (s.blob source).shape other source_shaped covers
  obtain ⟨dst, receiver⟩ := Option.ne_none_iff_exists'.mp reshaped_b.data
  obtain ⟨src, sender⟩ := Option.ne_none_iff_exists'.mp source_shaped.data
  rw [← kept] at sender
  have count : ((s.reshaped b (s.blob source).shape).blob b).count =
      ((s.reshaped b (s.blob source).shape).blob source).count := by
    rw [reshaped_count, kept, source_shaped.count]
  have allocated := reshaped_allocated s b (s.blob source).shape
  rw [← source_shaped.count] at allocated
  rw [copyFrom_resize not_pre not_post source_shaped.positive]
  split
  · -- the old memory is kept, and it is too small
    next stale =>
    rw [if_neg (Nat.not_lt.mpr stale.1)] at allocated
    apply copyData_over receiver sender
    rw [count, kept, allocated]
    exact Nat.not_le.mpr stale.2
  · next fresh =>
    have room : ((s.reshaped b (s.blob source).shape).blob b).count ≤
        (s.reshaped b (s.blob source).shape).allocated b := by
      rw [count, kept, allocated]
      split <;> omega
    obtain ⟨s', copied, blobs, values⟩ :=
      copyData_ok receiver sender count reshaped_b.count_pos room (by rw [kept, same_room]; exact covers)
    refine ⟨s', copied, ?_, ?_, values.trans same_values⟩
    · rw [blobs, reshaped_shape]
    · rw [blobs, count, kept]

/-- **Copying a blob.** `CopyFrom` does what is promised exactly if `CopyFits`. -/
theorem copyRight_iff (resize : Bool) (shaped : (s.blob b).WellShaped) (source_shaped : (s.blob source).WellShaped)
    (covers : (s.blob source).count ≤ s.allocated source) :
    s.CopyRight b source resize ↔ s.CopyFits b source resize := by
  obtain ⟨dst, receiver⟩ := Option.ne_none_iff_exists'.mp shaped.data
  obtain ⟨src, sender⟩ := Option.ne_none_iff_exists'.mp source_shaped.data
  by_cases same : (s.blob b).shape = (s.blob source).shape
  · by_cases room : (s.blob b).count ≤ s.allocated b
    · have right := copyFrom_same resize shaped source_shaped covers same room
      refine iff_of_true ?_ (.inl ⟨same, room⟩)
      cases resize with
      | true => exact right
      | false =>
        obtain ⟨s', copied, done⟩ := right
        exact .inr ⟨same, s', copied, done.values⟩
    · have stopped : copyFrom b source resize s = .error .range s := by
        rw [copyFrom_pre (same ▸ List.prefix_refl _)]
        exact copyData_over receiver sender room
      refine iff_of_false ?_ ?_
      · cases resize <;> simp [CopyRight, stopped]
      · rintro (⟨-, fits⟩ | ⟨not_pre, -⟩)
        · exact room fits
        · exact not_pre (same ▸ List.prefix_refl _)
  · by_cases pre : (s.blob b).shape <+: (s.blob source).shape
    · -- the receiver's dimensions are compared only: it keeps its shape
      refine iff_of_false ?_ fun fits => fits.elim (fun h => same h.1) (fun h => h.1 pre)
      cases resize with
      | true =>
        rintro ⟨s', copied, done⟩
        rw [copyFrom_pre pre] at copied
        exact same (copyData_blob receiver sender copied ▸ done.shape)
      | false =>
        rintro (⟨s', stopped, -⟩ | ⟨equal, -⟩)
        · rw [copyFrom_pre pre] at stopped
          cases copyData_error receiver sender stopped
        · exact same equal
    · by_cases post : (s.blob source).shape <+: (s.blob b).shape
      · refine iff_of_false ?_ fun fits => fits.elim (fun h => same h.1) (fun h => h.2.1 post)
        have stopped : copyFrom b source resize s = .error .range s := copyFrom_past post (Ne.symm same)
        cases resize <;> simp [CopyRight, stopped]
      · cases resize with
        | false =>
          refine iff_of_true ?_ (.inr ⟨pre, post, fun h => by cases h⟩)
          exact .inl ⟨s, copyFrom_fatal pre post, rfl, rfl⟩
        | true =>
          have right := copyFrom_differ shaped source_shaped covers pre post
          by_cases stale : (s.blob source).count ≤ (s.blob b).capacity ∧ s.allocated b < (s.blob source).count
          · rw [if_pos stale] at right
            refine iff_of_false ?_ ?_
            · rintro ⟨s', copied, -⟩
              rw [right] at copied
              cases copied
            · rintro (⟨equal, -⟩ | ⟨-, -, room⟩)
              · exact same equal
              · exact absurd (room rfl stale.1) (Nat.not_le.mpr stale.2)
          · rw [if_neg stale] at right
            exact iff_of_true right (.inr ⟨pre, post, fun _ kept => by omega⟩)

end Copy

/-- Two blobs of the given shapes. -/
def twoBlobs (a b : List Nat) : BlobHeap ℚ := (init.reshaped 0 a).reshaped 1 b

/-- Blobs of shapes 2 x 3 and 3 x 2. -/
theorem twoBlobs_copyRight : (twoBlobs [2, 3] [3, 2]).CopyRight 0 1 true ∧ (twoBlobs [2, 3] [3, 2]).CopyRight 0 1 false := by
  have shaped : ((twoBlobs [2, 3] [3, 2]).blob 0).WellShaped := ⟨by decide, by decide, by decide⟩
  have source_shaped : ((twoBlobs [2, 3] [3, 2]).blob 1).WellShaped := ⟨by decide, by decide, by decide⟩
  have fits (resize : Bool) : (twoBlobs [2, 3] [3, 2]).CopyFits 0 1 resize :=
    .inr ⟨by decide, by decide, fun _ _ => by decide⟩
  constructor
  · exact (copyRight_iff true shaped source_shaped (by decide)).mpr (fits true)
  · exact (copyRight_iff false shaped source_shaped (by decide)).mpr (fits false)

/-- A receiver of shape 2 x 3 keeps its shape when it copies a source of shape 2 x 3 x 4, and there is no abort. -/
theorem twoBlobs_not_copyRight :
    let s := twoBlobs [2, 3] [2, 3, 4]
    (s.blob 0).WellShaped ∧ (s.blob 1).WellShaped ∧ (s.blob 0).count ≤ s.allocated 0 ∧
      (s.blob 1).count ≤ s.allocated 1 ∧ ¬ s.CopyRight 0 1 true ∧ ¬ s.CopyRight 0 1 false := by
  intro s
  have pre : (s.blob 0).shape <+: (s.blob 1).shape := by decide
  have receiver : (s.blob 0).data = some 0 := by decide
  have sender : (s.blob 1).data = some 1 := by decide
  refine ⟨⟨by decide, by decide, by decide⟩, ⟨by decide, by decide, by decide⟩, by decide, by decide, ?_, ?_⟩
  · rintro ⟨s', copied, done⟩
    rw [copyFrom_pre pre] at copied
    have shape := done.shape
    rw [copyData_blob receiver sender copied] at shape
    exact absurd shape (by decide)
  · rintro (⟨s', stopped, -⟩ | ⟨equal, -⟩)
    · rw [copyFrom_pre pre] at stopped
      cases copyData_error receiver sender stopped
    · exact absurd equal (by decide)

end Singa
