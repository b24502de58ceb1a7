import Singa.Utils.CopyFrom

/-!
# `utils/blob.cc`: does the memory of a blob cover its shape?

The calls on any number of blobs, and what each of them leaves. `Reshape` keeps
the memory while the capacity is large enough; `ShareData` replaces the memory
and leaves the capacity as it was. After that a `Reshape` to a count within the
old capacity can leave a blob with less memory than it has elements.
-/

namespace Singa
set_option autoImplicit false

open BlobHeap BlobProg

/-- The calls on blobs, the constructors among them. -/
inductive BlobCall (α : Type) where
  | construct (b : Nat)
  | constructShape (b : Nat) (shape : List Nat)
  | constructCopy (b other : Nat)
  | reshape (b : Nat) (shape : List Nat)
  | reshapeLike (b other : Nat)
  | copyFrom (b source : Nat) (resize : Bool)
  | shareData (b other : Nat)
  | swap (b other : Nat)
  | fromProto (b : Nat) (shape : List Nat) (data : List α)

variable {α : Type}

namespace BlobCall

/-- The dimensions that a call is given are positive. -/
def Positive : BlobCall α → Prop
  | constructShape _ shape => ∀ d ∈ shape, 0 < d
  | reshape _ shape => ∀ d ∈ shape, 0 < d
  | fromProto _ shape _ => ∀ d ∈ shape, 0 < d
  | _ => True

def perform [Zero α] : BlobCall α → BlobProg α Unit
  | construct b => modify fun s => s.setBlob b .new
  | constructShape b shape => do
    modify fun s => s.setBlob b .new
    BlobProg.reshape b shape
  | constructCopy b other => modify fun s => s.setBlob b (s.blob other)
  | reshape b shape => BlobProg.reshape b shape
  | reshapeLike b other => BlobProg.reshapeLike b other
  | copyFrom b source resize => BlobProg.copyFrom b source resize
  | shareData b other => BlobProg.shareData b other
  | swap b other => BlobProg.swap b other
  | fromProto b shape data => BlobProg.fromProto b shape data

end BlobCall

/-- The state that a call leaves, whether it returns or stops. -/
def BlobProg.left : EStateM.Result Abort (BlobHeap α) Unit → BlobHeap α
  | .ok _ s => s
  | .error _ s => s

namespace BlobHeap

/-- Every blob is as `Blob()` leaves it or has been shaped. -/
def Shapes (s : BlobHeap α) : Prop := ∀ b, s.blob b = .new ∨ (s.blob b).WellShaped

/-- Every blob has memory for its elements. -/
def Covered (s : BlobHeap α) : Prop := ∀ b, (s.blob b).count ≤ s.allocated b

/-- The count of every blob that has been shaped is the product of its shape and within its memory. -/
def MemoryCovers (s : BlobHeap α) : Prop :=
  ∀ b, (s.blob b).shape ≠ [] ∨ (s.blob b).count ≠ 0 →
    (s.blob b).count = (s.blob b).shape.prod ∧ (s.blob b).count ≤ s.allocated b

theorem Shapes.memoryCovers_iff {s : BlobHeap α} (shapes : s.Shapes) : s.MemoryCovers ↔ s.Covered := by
  constructor
  · intro covers b
    by_cases shaped : (s.blob b).shape ≠ [] ∨ (s.blob b).count ≠ 0
    · exact (covers b shaped).2
    · rw [not_or, not_not, not_not] at shaped
      rw [shaped.2]
      exact Nat.zero_le _
  · intro covered b shaped
    rcases shapes b with fresh | well
    · rw [fresh] at shaped
      simp [FloatBlob.new] at shaped
    · exact ⟨well.count, covered b⟩

theorem Shapes.positive {s : BlobHeap α} (shapes : s.Shapes) (b : Nat) : ∀ d ∈ (s.blob b).shape, 0 < d := by
  rcases shapes b with fresh | well
  · simp [fresh, FloatBlob.new]
  · exact well.positive

/-- Two states with the same blobs and memories of the same sizes. -/
structure SameSizes (s s' : BlobHeap α) : Prop where
  blob : s'.blob = s.blob
  size : ∀ m, (s'.elements m).length = (s.elements m).length

theorem SameSizes.refl (s : BlobHeap α) : s.SameSizes s := ⟨rfl, fun _ => rfl⟩

theorem SameSizes.allocated {s s' : BlobHeap α} (same : s.SameSizes s') (b : Nat) : s'.allocated b = s.allocated b := by
  rw [BlobHeap.allocated, BlobHeap.allocated, same.blob]
  cases (s.blob b).data with
  | none => rfl
  | some m => exact same.size m

theorem SameSizes.covered_iff {s s' : BlobHeap α} (same : s.SameSizes s') : s'.Covered ↔ s.Covered := by
  simp only [Covered, same.blob, same.allocated]

theorem SameSizes.shapes_iff {s s' : BlobHeap α} (same : s.SameSizes s') : s'.Shapes ↔ s.Shapes := by
  simp only [Shapes, same.blob]

/-- There is room for `n` elements after a `Reshape` of `b` that keeps the memory. -/
def RoomFor (s : BlobHeap α) (b n : Nat) : Prop := n ≤ (s.blob b).capacity → n ≤ s.allocated b

/-- The effect of `CopyFrom` on the sizes. -/
def resized [Zero α] (s : BlobHeap α) (b source : Nat) (resize : Bool) : BlobHeap α :=
  if resize ∧ stdEqual (s.blob b).shape (s.blob source).shape = .ok false then s.reshaped b (s.blob source).shape else s

/-- The effect of `ShareData`. -/
def shared (s : BlobHeap α) (b other : Nat) : BlobHeap α :=
  if (s.blob b).count = (s.blob other).count ∧ (s.blob other).data ≠ none then
    s.setBlob b { s.blob b with data := (s.blob other).data }
  else s

/-- The effect of `Swap`. -/
def swapped (s : BlobHeap α) (b other : Nat) : BlobHeap α :=
  if (s.blob other).count = (s.blob b).count ∧ stdEqual (s.blob b).shape (s.blob other).shape = .ok true then
    (s.setBlob b { s.blob b with data := (s.blob other).data, capacity := (s.blob other).capacity }).setBlob other
      { s.blob other with data := (s.blob b).data, capacity := (s.blob b).capacity }
  else s

end BlobHeap

namespace BlobCall

/-- What a call does, up to the elements of the memories. -/
def next [Zero α] (s : BlobHeap α) : BlobCall α → BlobHeap α
  | construct b => s.setBlob b .new
  | constructShape b shape => (s.setBlob b .new).reshaped b shape
  | constructCopy b other => s.setBlob b (s.blob other)
  | reshape b shape => s.reshaped b shape
  | reshapeLike b other => s.reshaped b (s.blob other).shape
  | copyFrom b source resize => s.resized b source resize
  | shareData b other => s.shared b other
  | swap b other => s.swapped b other
  | fromProto b shape _ => s.reshaped b shape

/-- A `Reshape` in the call that keeps the memory has room in it. -/
def Roomy (s : BlobHeap α) : BlobCall α → Prop
  | reshape b shape => s.RoomFor b shape.prod
  | reshapeLike b other => s.RoomFor b (s.blob other).shape.prod
  | copyFrom b source resize =>
    resize ∧ stdEqual (s.blob b).shape (s.blob source).shape = .ok false → s.RoomFor b (s.blob source).shape.prod
  | fromProto b shape _ => s.RoomFor b shape.prod
  | _ => True

end BlobCall

/-! ## One call -/

theorem store_sameSizes (m n : Nat) (source : List α) (s : BlobHeap α) :
    s.SameSizes (left (store m n source s)) := by
  rw [store_apply]
  split
  · next room =>
    refine ⟨rfl, fun k => ?_⟩
    show ((s.write m _).elements k).length = _
    by_cases old : s.elements m = []
    · -- nothing is allocated, so nothing is written
      have none : n = 0 := by simpa [old] using room.1
      by_cases bound : m < s.memory.length
      · by_cases same : k = m
        · subst same
          simp [elements, write, List.getD, bound, none]
        · simp [elements, write, List.getD, Ne.symm same]
      · simp [elements, write, List.set_eq_of_length_le (Nat.le_of_not_lt bound)]
    · rw [write_elements s old]
      split
      · next same =>
        rw [same, List.length_append, List.length_take, List.length_drop]
        omega
      · rfl
  · exact .refl s

theorem copyData_sameSizes (b source : Nat) (s : BlobHeap α) : s.SameSizes (left (copyData b source s)) := by
  cases receiver : (s.blob b).data with
  | none =>
    have stopped : copyData b source s = .error .nullPointer s := by
      rw [copyData, get_bind, receiver]
      rfl
    rw [stopped]
    exact .refl s
  | some dst =>
    cases sender : (s.blob source).data with
    | none =>
      have stopped : copyData b source s = .error .blobData s := by
        rw [copyData, get_bind, receiver]
        dsimp only
        rw [sender]
        rfl
      rw [stopped]
      exact .refl s
    | some src =>
      rw [copyData_apply receiver sender]
      exact store_sameSizes _ _ _ s

theorem shareData_next (b other : Nat) (s : BlobHeap α) :
    left (shareData b other s) = s.shared b other := by
  unfold shared
  rw [shareData, get_bind]
  by_cases count : (s.blob b).count = (s.blob other).count
  · rw [if_neg (not_not.mpr count)]
    cases data : (s.blob other).data with
    | none =>
      rw [if_neg fun h => h.2 rfl]
      rfl
    | some m =>
      rw [if_pos ⟨count, by simp⟩]
      rfl
  · rw [if_pos count, if_neg fun h => count h.1]
    rfl

theorem swap_next (b other : Nat) (s : BlobHeap α) : left (swap b other s) = s.swapped b other := by
  unfold swapped
  show left ((if (s.blob other).count ≠ (s.blob b).count then throw .blobCount
    else ofRun (stdEqual (s.blob b).shape (s.blob other).shape) >>= _ : BlobProg α Unit) s) = _
  by_cases count : (s.blob other).count = (s.blob b).count
  · rw [if_neg (not_not.mpr count)]
    cases equal : stdEqual (s.blob b).shape (s.blob other).shape with
    | error e =>
      rw [if_neg fun h => by cases h.2]
      rfl
    | ok r =>
      cases r with
      | false =>
        rw [if_neg fun h => by cases h.2]
        rfl
      | true =>
        rw [if_pos ⟨count, rfl⟩]
        rfl
  · rw [if_pos count, if_neg fun h => count h.1]
    rfl

variable [Zero α]

theorem copyFrom_next (b source : Nat) (resize : Bool) {s : BlobHeap α} (positive : ∀ d ∈ (s.blob source).shape, 0 < d) :
    (s.resized b source resize).SameSizes (left (copyFrom b source resize s)) := by
  unfold resized
  by_cases pre : (s.blob b).shape <+: (s.blob source).shape
  · rw [if_neg fun h => (stdEqual_false_iff.mp h.2).1 pre, copyFrom_pre pre]
    exact copyData_sameSizes b source s
  · by_cases post : (s.blob source).shape <+: (s.blob b).shape
    · rw [if_neg fun h => (stdEqual_false_iff.mp h.2).2 post,
        copyFrom_past post fun same => pre (same ▸ List.prefix_refl _)]
      exact .refl s
    · cases resize with
      | false =>
        rw [if_neg fun h => by simp at h, copyFrom_fatal pre post]
        exact .refl s
      | true =>
        rw [if_pos ⟨rfl, stdEqual_false_iff.mpr ⟨pre, post⟩⟩, copyFrom_resize pre post positive]
        exact copyData_sameSizes b source _

theorem fromProto_next (b : Nat) {shape : List Nat} (positive : ∀ d ∈ shape, 0 < d) (data : List α) (s : BlobHeap α) :
    (s.reshaped b shape).SameSizes (left (fromProto b shape data s)) := by
  rw [fromProto, bind_apply, reshape_apply b positive]
  dsimp only
  rw [get_bind]
  cases ((s.reshaped b shape).blob b).data with
  | none => exact .refl _
  | some m => exact store_sameSizes _ _ _ _

/-- What any call leaves. -/
theorem perform_next {s : BlobHeap α} (shapes : s.Shapes) (c : BlobCall α) (positive : c.Positive) :
    (c.next s).SameSizes (left (c.perform s)) := by
  cases c with
  | construct b => exact .refl _
  | constructShape b shape =>
    show ((s.setBlob b .new).reshaped b shape).SameSizes (left (reshape b shape (s.setBlob b .new)))
    rw [reshape_apply b positive]
    exact .refl _
  | constructCopy b other => exact .refl _
  | reshape b shape =>
    show (s.reshaped b shape).SameSizes (left (reshape b shape s))
    rw [reshape_apply b positive]
    exact .refl _
  | reshapeLike b other =>
    show (s.reshaped b (s.blob other).shape).SameSizes (left (reshape b (s.blob other).shape s))
    rw [reshape_apply b (shapes.positive other)]
    exact .refl _
  | copyFrom b source resize => exact copyFrom_next b source resize (shapes.positive source)
  | shareData b other =>
    show (s.shared b other).SameSizes (left (shareData b other s))
    rw [shareData_next]
    exact .refl _
  | swap b other =>
    show (s.swapped b other).SameSizes (left (swap b other s))
    rw [swap_next]
    exact .refl _
  | fromProto b shape data => exact fromProto_next b positive data s

/-! ## The shapes -/

namespace BlobHeap

omit [Zero α] in
theorem Shapes.setBlob {s : BlobHeap α} (shapes : s.Shapes) (b : Nat) {x : FloatBlob} (good : x = .new ∨ x.WellShaped) :
    (s.setBlob b x).Shapes := by
  intro c
  by_cases same : c = b
  · rw [same, setBlob_blob_same]
    exact good
  · rw [setBlob_blob_ne s same]
    exact shapes c

theorem Shapes.reshaped {s : BlobHeap α} (shapes : s.Shapes) (b : Nat) {shape : List Nat} (positive : ∀ d ∈ shape, 0 < d) :
    (s.reshaped b shape).Shapes := by
  intro c
  by_cases same : c = b
  · subst same
    refine .inr (reshaped_wellShaped positive ?_)
    rcases shapes c with fresh | well
    · right
      rw [fresh]
      exact List.prod_pos positive
    · exact .inl well.data
  · rw [reshaped_blob_ne s same]
    exact shapes c

omit [Zero α] in
/-- A blob that takes the memory of one that has as many elements. -/
theorem Shapes.take {s : BlobHeap α} (shapes : s.Shapes) {b other : Nat} (count : (s.blob b).count = (s.blob other).count)
    (capacity : Nat) (fresh : s.blob b = .new → capacity = 0) :
    let x : FloatBlob := { s.blob b with data := (s.blob other).data, capacity := capacity }
    x = .new ∨ x.WellShaped := by
  intro x
  rcases shapes other with empty | well
  · -- no elements, so the receiver is empty too
    rcases shapes b with new | shaped
    · left
      show ({ s.blob b with data := (s.blob other).data, capacity := capacity } : FloatBlob) = .new
      rw [empty, fresh new, new]
      rfl
    · have pos := shaped.count_pos
      rw [count, empty] at pos
      exact absurd pos (lt_irrefl 0)
  · rcases shapes b with new | shaped
    · have pos := well.count_pos
      rw [← count, new] at pos
      exact absurd pos (lt_irrefl 0)
    · exact .inr ⟨shaped.positive, shaped.count, well.data⟩

end BlobHeap

/-- Every call keeps the shapes of all blobs right. -/
theorem perform_shapes {s : BlobHeap α} (shapes : s.Shapes) (c : BlobCall α) (positive : c.Positive) :
    (left (c.perform s)).Shapes := by
  rw [(perform_next shapes c positive).shapes_iff]
  cases c with
  | construct b => exact shapes.setBlob b (.inl rfl)
  | constructShape b shape => exact (shapes.setBlob b (.inl rfl)).reshaped b positive
  | constructCopy b other => exact shapes.setBlob b (shapes other)
  | reshape b shape => exact shapes.reshaped b positive
  | reshapeLike b other => exact shapes.reshaped b (shapes.positive other)
  | copyFrom b source resize =>
    show (s.resized b source resize).Shapes
    unfold resized
    split
    · exact shapes.reshaped b (shapes.positive source)
    · exact shapes
  | shareData b other =>
    show (s.shared b other).Shapes
    unfold shared
    split
    · next takes => exact shapes.setBlob b (shapes.take takes.1 _ fun new => by rw [new]; rfl)
    · exact shapes
  | swap b other =>
    show (s.swapped b other).Shapes
    unfold swapped
    split
    · next swaps =>
      have empty {x y : Nat} (count : (s.blob x).count = (s.blob y).count) (new : s.blob x = .new) :
          (s.blob y).capacity = 0 := by
        rcases shapes y with fresh | well
        · rw [fresh]
          rfl
        · have pos := well.count_pos
          rw [← count, new] at pos
          exact absurd pos (lt_irrefl 0)
      apply Shapes.setBlob
      · exact shapes.setBlob b (shapes.take swaps.1.symm _ (empty swaps.1.symm))
      · exact shapes.take swaps.1 _ (empty swaps.1)
    · exact shapes
  | fromProto b shape data => exact shapes.reshaped b positive

/-! ## The memory -/

namespace BlobHeap

omit [Zero α] in
theorem Covered.setBlob {s : BlobHeap α} (covered : s.Covered) (b : Nat) {x : FloatBlob}
    (room : x.count ≤ s.size x.data) : (s.setBlob b x).Covered := by
  intro c
  rw [allocated, setBlob_size]
  by_cases same : c = b
  · rw [same, setBlob_blob_same]
    exact room
  · rw [setBlob_blob_ne s same]
    exact covered c

/-- The memory of another blob is kept. -/
theorem reshaped_allocated_ne (s : BlobHeap α) {b c : Nat} (other : c ≠ b) (shape : List Nat) :
    s.allocated c ≤ (s.reshaped b shape).allocated c := by
  rw [allocated, allocated, reshaped_blob_ne s other]
  cases (s.blob c).data with
  | none => exact le_rfl
  | some m =>
    rw [size, size]
    by_cases old : s.elements m = []
    · rw [old]
      exact Nat.zero_le _
    · rw [reshaped_elements_old s b shape old]

/-- `Reshape` keeps the memory large enough exactly if there is room, when the memory is kept. -/
theorem Covered.reshaped_iff {s : BlobHeap α} (covered : s.Covered) (b : Nat) (shape : List Nat) :
    (s.reshaped b shape).Covered ↔ s.RoomFor b shape.prod := by
  have receiver : ((s.reshaped b shape).blob b).count ≤ (s.reshaped b shape).allocated b ↔ s.RoomFor b shape.prod := by
    rw [reshaped_count, reshaped_allocated, RoomFor]
    split <;> omega
  constructor
  · intro after
    exact receiver.mp (after b)
  · intro room c
    by_cases same : c = b
    · rw [same]
      exact receiver.mpr room
    · rw [reshaped_blob_ne s same]
      exact (covered c).trans (reshaped_allocated_ne s same shape)

end BlobHeap

/-- A call keeps every memory large enough exactly if it is roomy. -/
theorem perform_covered_iff {s : BlobHeap α} (shapes : s.Shapes) (covered : s.Covered) (c : BlobCall α)
    (positive : c.Positive) : (left (c.perform s)).Covered ↔ c.Roomy s := by
  rw [(perform_next shapes c positive).covered_iff]
  cases c with
  | construct b => exact iff_of_true (covered.setBlob b (Nat.zero_le _)) trivial
  | constructShape b shape =>
    have fresh : (s.setBlob b .new).Covered := covered.setBlob b (Nat.zero_le _)
    refine iff_of_true ((fresh.reshaped_iff b shape).mpr fun kept => ?_) trivial
    rw [setBlob_blob_same] at kept
    exact absurd (List.prod_pos positive) (Nat.not_lt.mpr kept)
  | constructCopy b other => exact iff_of_true (covered.setBlob b (covered other)) trivial
  | reshape b shape => exact covered.reshaped_iff b shape
  | reshapeLike b other => exact covered.reshaped_iff b _
  | copyFrom b source resize =>
    show (s.resized b source resize).Covered ↔ (_ → _)
    unfold resized
    split
    · next resizes =>
      rw [covered.reshaped_iff]
      exact ⟨fun room _ => room, fun room => room resizes⟩
    · next keeps => exact iff_of_true covered fun resizes => absurd resizes keeps
  | shareData b other =>
    refine iff_of_true ?_ trivial
    show (s.shared b other).Covered
    unfold shared
    split
    · next takes =>
      apply covered.setBlob
      show (s.blob b).count ≤ s.allocated other
      rw [takes.1]
      exact covered other
    · exact covered
  | swap b other =>
    refine iff_of_true ?_ trivial
    show (s.swapped b other).Covered
    unfold swapped
    split
    · next swaps =>
      apply Covered.setBlob
      · apply covered.setBlob
        show (s.blob b).count ≤ s.allocated other
        rw [← swaps.1]
        exact covered other
      · rw [setBlob_size]
        show (s.blob other).count ≤ s.allocated b
        rw [swaps.1]
        exact covered b
    · exact covered
  | fromProto b shape data => exact covered.reshaped_iff b shape

end Singa
