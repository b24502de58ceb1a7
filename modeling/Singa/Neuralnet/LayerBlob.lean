import Singa.Utils.Blob

/-!
# The blobs of a layer

A layer shapes each of its blobs once, when it is set up, and shares none of
them. Such a blob is its shape and as many elements, and that is what `Reshape`
makes of a blob that has not been shaped before (`reshape_fresh`).
-/

namespace Singa
set_option autoImplicit false

variable {α : Type}

/-- A blob with a memory of its own, of the size of its shape. -/
structure LayerBlob (α : Type) where
  shape : List Nat
  values : List α
  sized : values.length = shape.prod

namespace LayerBlob

def count (b : LayerBlob α) : Nat := b.shape.prod

theorem length_values (b : LayerBlob α) : b.values.length = b.count := b.sized

/-- `Reshape` of a blob that has not been shaped before. -/
def fresh [Zero α] (shape : List Nat) : Run (LayerBlob α) :=
  if 0 ∈ shape then .error .shape else .ok ⟨shape, List.replicate shape.prod 0, List.length_replicate⟩

/-- `n` elements into the first places. -/
def store (b : LayerBlob α) (n : Nat) (source : List α) : Run (LayerBlob α) :=
  if h : n ≤ b.count ∧ n ≤ source.length then
    .ok ⟨b.shape, source.take n ++ b.values.drop n, by
      rw [List.length_append, List.length_take, List.length_drop, b.length_values]
      have := b.sized
      have := b.length_values
      omega⟩
  else .error .range

/-- `Blob::CopyFrom` without reshaping. -/
def copyFrom (b source : LayerBlob α) : Run (LayerBlob α) := do
  let equal ← stdEqual b.shape source.shape
  if equal then b.store b.count source.values else .error .copyShape

/-- One element changed in place. -/
def modifyAt (b : LayerBlob α) (i : Nat) (f : α → α) : Run (LayerBlob α) :=
  if i < b.count then .ok ⟨b.shape, b.values.modify i f, by rw [List.length_modify, b.sized]⟩ else .error .range

theorem ext {a b : LayerBlob α} (shape : a.shape = b.shape) (values : a.values = b.values) : a = b := by
  cases a
  cases b
  cases shape
  cases values
  rfl

theorem fresh_ok_iff [Zero α] {shape : List Nat} {b : LayerBlob α} :
    fresh shape = .ok b ↔ 0 ∉ shape ∧ b = ⟨shape, List.replicate shape.prod 0, List.length_replicate⟩ := by
  unfold fresh
  split
  · next zero => simp [zero]
  · next positive => simp [positive, eq_comm]

theorem store_all {b : LayerBlob α} {n : Nat} {source : List α} (whole : n = b.count) (read : n ≤ source.length) :
    ∃ b', b.store n source = .ok b' ∧ b'.shape = b.shape ∧ b'.values = source.take n := by
  have fits : n ≤ b.count ∧ n ≤ source.length := ⟨whole.le, read⟩
  refine ⟨_, dif_pos fits, rfl, ?_⟩
  show source.take n ++ b.values.drop n = source.take n
  rw [List.drop_eq_nil_of_le (by rw [b.length_values, whole]), List.append_nil]

/-- A blob of the same shape is copied whole. -/
theorem copyFrom_same {b source : LayerBlob α} (same : b.shape = source.shape) : b.copyFrom source = .ok source := by
  have equal : stdEqual b.shape source.shape = .ok true := stdEqual_true_iff.mpr (same ▸ List.prefix_refl _)
  have count : b.count = source.count := by rw [count, count, same]
  have read : b.count ≤ source.values.length := by rw [source.length_values, count]
  obtain ⟨b', stored, shape, values⟩ := store_all (b := b) rfl read
  refine Run.do_ok.mpr ⟨true, equal, ?_⟩
  rw [if_pos rfl, stored]
  apply congrArg Except.ok
  apply ext
  · rw [shape, same]
  · rw [values, count, ← source.length_values, List.take_length]

end LayerBlob

open BlobHeap BlobProg

/-- `Blob::Reshape` of a blob as `Blob()` leaves it. -/
theorem reshape_fresh [Zero α] {s : BlobHeap α} {b : Nat} (unshaped : s.blob b = .new) {shape : List Nat}
    {own : LayerBlob α} (h : LayerBlob.fresh shape = .ok own) :
    ∃ s', reshape b shape s = .ok () s' ∧ (s'.blob b).shape = own.shape ∧ (s'.blob b).count = own.count ∧
      s'.allocated b = own.count ∧ s'.values b = own.values := by
  obtain ⟨nonzero, rfl⟩ := LayerBlob.fresh_ok_iff.mp h
  have positive : ∀ d ∈ shape, 0 < d := fun d mem => Nat.pos_of_ne_zero fun zero => nonzero (zero ▸ mem)
  have small : (s.blob b).capacity < shape.prod := by
    rw [unshaped]
    exact List.prod_pos positive
  have data : ((s.reshaped b shape).blob b).data = some s.memory.length := by
    unfold reshaped
    dsimp only
    rw [setBlob_blob_same, if_pos small]
    simp [reset, setBlob]
  refine ⟨_, reshape_apply b positive s, reshaped_shape s b shape, reshaped_count s b shape, ?_, ?_⟩
  · rw [reshaped_allocated, if_pos small]
    rfl
  · have memory : (s.reshaped b shape).elements s.memory.length = List.replicate shape.prod 0 := by
      unfold reshaped
      dsimp only
      rw [setBlob_blob_same, if_pos small]
      exact reset_elements_new _ b shape.prod
    rw [values, data, reshaped_count]
    dsimp only
    rw [memory, List.take_of_length_le List.length_replicate.le]

end Singa
