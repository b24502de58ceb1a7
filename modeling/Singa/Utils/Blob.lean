import Singa.Utils.Abort

/-!
# `utils/blob.cc`: blobs and the memory they share

A blob keeps its shape, the number of its elements and a capacity, and points to
a `SyncedMemory`; several blobs can point to the same one. Dimensions are
natural numbers and products of them are exact. A call that stops leaves the
state it has reached, so that an abort without a change can be told from one
after a change. Memory is zeroed when it is touched first; the model zeroes it
when it is allocated.
-/

namespace Singa
set_option autoImplicit false

/-- `Blob<Dtype>`, less its version; `data` is the number of the memory that `data_` points to. -/
structure FloatBlob where
  shape : List Nat
  count : Nat
  capacity : Nat
  data : Option Nat
  deriving DecidableEq, Repr

/-- `Blob()`. -/
def FloatBlob.new : FloatBlob := ⟨[], 0, 0, none⟩

/-- The blobs, and the elements of every `SyncedMemory` so far. -/
structure BlobHeap (α : Type) where
  blob : Nat → FloatBlob
  memory : List (List α)

/-- A call, with the state it leaves also when it stops. -/
abbrev BlobProg (α : Type) := EStateM Abort (BlobHeap α)

/-- `std::equal(a.begin(), a.end(), b.begin())`: `b` is read past its end if it is the shorter one. -/
def stdEqual : List Nat → List Nat → Run Bool
  | [], _ => .ok true
  | _ :: _, [] => .error .range
  | x :: a, y :: b => if x = y then stdEqual a b else .ok false

namespace BlobHeap

variable {α : Type}

/-- Every blob as `Blob()` leaves it. -/
def init : BlobHeap α := ⟨fun _ => .new, []⟩

/-- The elements of memory `m`. -/
def elements (s : BlobHeap α) (m : Nat) : List α := s.memory.getD m []

/-- The number of elements behind a pointer. -/
def size (s : BlobHeap α) : Option Nat → Nat
  | none => 0
  | some m => (s.elements m).length

/-- The number of elements that are allocated for blob `b`. -/
def allocated (s : BlobHeap α) (b : Nat) : Nat := s.size (s.blob b).data

/-- The elements of blob `b`. -/
def values (s : BlobHeap α) (b : Nat) : List α :=
  match (s.blob b).data with
  | none => []
  | some m => (s.elements m).take (s.blob b).count

def setBlob (s : BlobHeap α) (b : Nat) (x : FloatBlob) : BlobHeap α := { s with blob := Function.update s.blob b x }

def write (s : BlobHeap α) (m : Nat) (values : List α) : BlobHeap α := { s with memory := s.memory.set m values }

/-- `data_.reset(new SyncedMemory(capacity_ * sizeof(Dtype)))` after `capacity_ = n`. -/
def reset [Zero α] (s : BlobHeap α) (b n : Nat) : BlobHeap α :=
  ⟨Function.update s.blob b { s.blob b with capacity := n, data := some s.memory.length },
    s.memory ++ [List.replicate n 0]⟩

end BlobHeap

namespace BlobProg

variable {α : Type}

open BlobHeap

/-- A function without effect on the blobs. -/
def ofRun {β : Type} : Run β → BlobProg α β
  | .ok a => pure a
  | .error e => throw e

/-- One pass of the loop of `Reshape`. -/
def reshapeDim (b d : Nat) : BlobProg α Unit :=
  if d = 0 then throw .shape
  else modify fun s => s.setBlob b { s.blob b with count := (s.blob b).count * d }

/-- `Blob::Reshape`. -/
def reshape [Zero α] (b : Nat) (shape : List Nat) : BlobProg α Unit := do
  modify fun s => s.setBlob b { s.blob b with shape := shape, count := 1 }
  forM shape (reshapeDim b)
  modify fun s => if (s.blob b).capacity < (s.blob b).count then s.reset b (s.blob b).count else s

/-- `Blob::ReshapeLike`. -/
def reshapeLike [Zero α] (b other : Nat) : BlobProg α Unit := do
  let s ← get
  reshape b (s.blob other).shape

/-- `Blob::ShareData`: the capacity stays that of the memory the blob had before. -/
def shareData (b other : Nat) : BlobProg α Unit := do
  let s ← get
  if (s.blob b).count ≠ (s.blob other).count then throw .blobCount
  else
    match (s.blob other).data with
    | none => throw .blobData
    | some m => set (s.setBlob b { s.blob b with data := some m })

/-- `Blob::Swap`. -/
def swap (b other : Nat) : BlobProg α Unit := do
  let s ← get
  if (s.blob other).count ≠ (s.blob b).count then throw .blobCount
  else
    let equal ← ofRun (stdEqual (s.blob b).shape (s.blob other).shape)
    if equal then
      let x := s.blob b
      let y := s.blob other
      set ((s.setBlob b { x with data := y.data, capacity := y.capacity }).setBlob other
        { y with data := x.data, capacity := x.capacity })
    else throw .swapShape

/-- `n` elements into the first places of memory `m`. -/
def store (m n : Nat) (source : List α) : BlobProg α Unit := do
  let s ← get
  if n ≤ (s.elements m).length ∧ n ≤ source.length then
    set (s.write m (source.take n ++ (s.elements m).drop n))
  else throw .range

/-- The `memcpy` of `CopyFrom`. -/
def copyData (b source : Nat) : BlobProg α Unit := do
  let s ← get
  match (s.blob b).data with
  | none => throw .nullPointer
  | some dst =>
    match (s.blob source).data with
    | none => throw .blobData
    | some src => store dst (s.blob b).count (s.elements src)

/-- `Blob::CopyFrom`; the flag is called `resize` here. -/
def copyFrom [Zero α] (b source : Nat) (resize : Bool) : BlobProg α Unit := do
  let s ← get
  let equal ← ofRun (stdEqual (s.blob b).shape (s.blob source).shape)
  if !equal then
    if resize then reshape b (s.blob source).shape
    else throw .copyShape
  copyData b source

/-- `Blob::FromProto`. -/
def fromProto [Zero α] (b : Nat) (shape : List Nat) (data : List α) : BlobProg α Unit := do
  reshape b shape
  let s ← get
  match (s.blob b).data with
  | none => throw .blobData
  | some m => store m (s.blob b).count data

end BlobProg

/-! ## `std::equal` -/

theorem stdEqual_true_iff {a b : List Nat} : stdEqual a b = .ok true ↔ a <+: b := by
  induction a generalizing b with
  | nil => simp [stdEqual]
  | cons x a ih =>
    cases b with
    | nil => simp [stdEqual]
    | cons y b =>
      rw [stdEqual, List.cons_prefix_cons, ← ih]
      by_cases same : x = y <;> simp [same]

theorem stdEqual_error_iff {a b : List Nat} {e : Abort} :
    stdEqual a b = .error e ↔ e = .range ∧ b <+: a ∧ b ≠ a := by
  induction a generalizing b with
  | nil => cases b <;> simp [stdEqual]
  | cons x a ih =>
    cases b with
    | nil => simp [stdEqual, eq_comm]
    | cons y b =>
      rw [stdEqual, List.cons_prefix_cons]
      by_cases same : x = y
      · rw [if_pos same, ih, same]
        simp
      · rw [if_neg same]
        simp [Ne.symm same]

theorem stdEqual_false_iff {a b : List Nat} : stdEqual a b = .ok false ↔ ¬ a <+: b ∧ ¬ b <+: a := by
  constructor
  · intro differ
    constructor
    · intro pre
      rw [stdEqual_true_iff.mpr pre] at differ
      cases differ
    · intro pre
      by_cases same : b = a
      · rw [same, stdEqual_true_iff.mpr (List.prefix_refl a)] at differ
        cases differ
      · rw [stdEqual_error_iff.mpr ⟨rfl, pre, same⟩] at differ
        cases differ
  · rintro ⟨not_pre, not_post⟩
    cases result : stdEqual a b with
    | error e => exact absurd (stdEqual_error_iff.mp result).2.1 not_post
    | ok equal =>
      cases equal with
      | false => rfl
      | true => exact absurd (stdEqual_true_iff.mp result) not_pre

/-! ## What a call does -/

namespace BlobHeap

variable {α : Type}

@[simp] theorem setBlob_blob_same (s : BlobHeap α) (b : Nat) (x : FloatBlob) : (s.setBlob b x).blob b = x := by
  simp [setBlob]

theorem setBlob_blob_ne (s : BlobHeap α) {b c : Nat} (other : c ≠ b) (x : FloatBlob) :
    (s.setBlob b x).blob c = s.blob c := by
  simp [setBlob, other]

@[simp] theorem setBlob_elements (s : BlobHeap α) (b : Nat) (x : FloatBlob) (m : Nat) :
    (s.setBlob b x).elements m = s.elements m := by
  simp [setBlob, elements]

@[simp] theorem setBlob_size (s : BlobHeap α) (b : Nat) (x : FloatBlob) (data : Option Nat) :
    (s.setBlob b x).size data = s.size data := by
  cases data with
  | none => rfl
  | some m => exact congrArg List.length (setBlob_elements s b x m)

@[simp] theorem setBlob_setBlob (s : BlobHeap α) (b : Nat) (x y : FloatBlob) :
    (s.setBlob b x).setBlob b y = s.setBlob b y := by
  simp [setBlob]

@[simp] theorem write_blob (s : BlobHeap α) (m : Nat) (values : List α) : (s.write m values).blob = s.blob := rfl

theorem write_elements (s : BlobHeap α) {m : Nat} (old : s.elements m ≠ []) (values : List α) (k : Nat) :
    (s.write m values).elements k = if k = m then values else s.elements k := by
  have bound : m < s.memory.length := by
    by_contra out
    exact old (by simp [elements, List.getD, List.getElem?_eq_none (Nat.le_of_not_lt out)])
  by_cases same : k = m
  · simp [elements, write, List.getD, same, bound]
  · simp [elements, write, List.getD, same, Ne.symm same]

/-- The state after `Reshape` to positive dimensions. -/
def reshaped [Zero α] (s : BlobHeap α) (b : Nat) (shape : List Nat) : BlobHeap α :=
  let s := s.setBlob b { s.blob b with shape := shape, count := shape.prod }
  if (s.blob b).capacity < shape.prod then s.reset b shape.prod else s

variable [Zero α]

theorem reset_elements_old (s : BlobHeap α) (b n : Nat) {m : Nat} (old : s.elements m ≠ []) :
    (s.reset b n).elements m = s.elements m := by
  have bound : m < s.memory.length := by
    by_contra out
    exact old (by simp [elements, List.getD, List.getElem?_eq_none (Nat.le_of_not_lt out)])
  simp [reset, elements, List.getD, List.getElem?_append_left bound]

theorem reset_elements_new (s : BlobHeap α) (b n : Nat) :
    (s.reset b n).elements s.memory.length = List.replicate n 0 := by
  simp [reset, elements, List.getD]

theorem reshaped_blob_ne (s : BlobHeap α) {b c : Nat} (other : c ≠ b) (shape : List Nat) :
    (s.reshaped b shape).blob c = s.blob c := by
  unfold reshaped
  dsimp only
  split
  · simp [reset, setBlob, other]
  · exact setBlob_blob_ne s other _

@[simp] theorem reshaped_shape (s : BlobHeap α) (b : Nat) (shape : List Nat) :
    ((s.reshaped b shape).blob b).shape = shape := by
  unfold reshaped
  dsimp only
  split <;> simp [reset, setBlob]

@[simp] theorem reshaped_count (s : BlobHeap α) (b : Nat) (shape : List Nat) :
    ((s.reshaped b shape).blob b).count = shape.prod := by
  unfold reshaped
  dsimp only
  split <;> simp [reset, setBlob]

@[simp] theorem reshaped_capacity (s : BlobHeap α) (b : Nat) (shape : List Nat) :
    ((s.reshaped b shape).blob b).capacity = max (s.blob b).capacity shape.prod := by
  unfold reshaped
  dsimp only
  rw [setBlob_blob_same]
  by_cases small : (s.blob b).capacity < shape.prod
  · rw [if_pos small, max_eq_right small.le]
    simp [reset]
  · rw [if_neg small, setBlob_blob_same, max_eq_left (Nat.le_of_not_lt small)]

theorem reshaped_elements_old (s : BlobHeap α) (b : Nat) (shape : List Nat) {m : Nat} (old : s.elements m ≠ []) :
    (s.reshaped b shape).elements m = s.elements m := by
  unfold reshaped
  dsimp only
  split
  · rw [reset_elements_old _ _ _ (by simpa using old), setBlob_elements]
  · exact setBlob_elements s b _ m

/-- The memory is a new one exactly if the capacity was too small for the new count. -/
theorem reshaped_allocated (s : BlobHeap α) (b : Nat) (shape : List Nat) :
    (s.reshaped b shape).allocated b =
      if (s.blob b).capacity < shape.prod then shape.prod else s.allocated b := by
  unfold reshaped
  dsimp only
  rw [setBlob_blob_same]
  by_cases small : (s.blob b).capacity < shape.prod
  · rw [if_pos small, if_pos small, allocated]
    simp [reset, size, elements, setBlob, List.getD]
  · rw [if_neg small, if_neg small]
    simp [allocated]

/-- `Reshape` leaves a blob without memory only if it had none and needs none. -/
theorem reshaped_data (s : BlobHeap α) {b : Nat} {shape : List Nat}
    (some_memory : (s.blob b).data ≠ none ∨ (s.blob b).capacity < shape.prod) :
    ((s.reshaped b shape).blob b).data ≠ none := by
  unfold reshaped
  dsimp only
  rw [setBlob_blob_same]
  by_cases small : (s.blob b).capacity < shape.prod
  · rw [if_pos small]
    simp [reset]
  · rw [if_neg small, setBlob_blob_same]
    exact some_memory.resolve_right small

end BlobHeap

namespace BlobProg

open BlobHeap

variable {α : Type}

/-- A program that looks at the heap first. -/
theorem get_bind {β : Type} (f : BlobHeap α → BlobProg α β) (s : BlobHeap α) : (get >>= f) s = f s s := rfl

theorem bind_apply {β γ : Type} (x : BlobProg α β) (f : β → BlobProg α γ) (s : BlobHeap α) :
    (x >>= f) s = match x s with
      | .ok a s' => f a s'
      | .error e s' => .error e s' := by
  show EStateM.bind x f s = _
  unfold EStateM.bind
  cases x s <;> rfl

theorem modify_apply (f : BlobHeap α → BlobHeap α) (s : BlobHeap α) :
    (modify f : BlobProg α Unit) s = .ok () (f s) := rfl

/-- The loop of `Reshape` over positive dimensions. -/
theorem dims_apply (b : Nat) {shape : List Nat} (positive : ∀ d ∈ shape, 0 < d) (s : BlobHeap α) :
    (forM shape (reshapeDim b) : BlobProg α Unit) s =
      .ok () (s.setBlob b { s.blob b with count := (s.blob b).count * shape.prod }) := by
  induction shape generalizing s with
  | nil =>
    have same : s.setBlob b { s.blob b with count := (s.blob b).count * 1 } = s := by simp [setBlob]
    rw [List.prod_nil, same]
    rfl
  | cons d ds ih =>
    have pass : (reshapeDim b d : BlobProg α Unit) s =
        .ok () (s.setBlob b { s.blob b with count := (s.blob b).count * d }) := by
      rw [reshapeDim, if_neg (positive d List.mem_cons_self).ne', modify_apply]
    rw [List.forM_cons, bind_apply, pass]
    dsimp only
    rw [ih fun e mem => positive e (List.mem_cons_of_mem d mem)]
    simp [Nat.mul_assoc]

theorem reshape_apply [Zero α] (b : Nat) {shape : List Nat} (positive : ∀ d ∈ shape, 0 < d) (s : BlobHeap α) :
    reshape b shape s = .ok () (s.reshaped b shape) := by
  rw [reshape, bind_apply, modify_apply]
  dsimp only
  rw [bind_apply, dims_apply b positive]
  dsimp only
  rw [modify_apply]
  simp only [setBlob_blob_same, setBlob_setBlob, Nat.one_mul, reshaped]

theorem store_apply (m n : Nat) (source : List α) (s : BlobHeap α) :
    store m n source s =
      if n ≤ (s.elements m).length ∧ n ≤ source.length then
        .ok () (s.write m (source.take n ++ (s.elements m).drop n))
      else .error .range s := by
  show (if n ≤ (s.elements m).length ∧ n ≤ source.length then _ else _ : BlobProg α Unit) s = _
  split <;> rfl

theorem copyData_apply {b source dst src : Nat} {s : BlobHeap α} (receiver : (s.blob b).data = some dst)
    (sender : (s.blob source).data = some src) :
    copyData b source s = store dst (s.blob b).count (s.elements src) s := by
  rw [copyData, get_bind, receiver]
  dsimp only
  rw [sender]

section CopyFrom

variable [Zero α] {b source : Nat} {resize : Bool} {s : BlobHeap α}

/-- The first dimensions of the source are those of the receiver. -/
theorem copyFrom_pre (pre : (s.blob b).shape <+: (s.blob source).shape) :
    copyFrom b source resize s = copyData b source s := by
  rw [copyFrom, bind_apply]
  show (ofRun (stdEqual (s.blob b).shape (s.blob source).shape) >>= _ : BlobProg α Unit) s = _
  rw [stdEqual_true_iff.mpr pre]
  rfl

/-- The source has fewer dimensions, and they are those of the receiver. -/
theorem copyFrom_past (pre : (s.blob source).shape <+: (s.blob b).shape) (ne : (s.blob source).shape ≠ (s.blob b).shape) :
    copyFrom b source resize s = .error .range s := by
  rw [copyFrom, bind_apply]
  show (ofRun (stdEqual (s.blob b).shape (s.blob source).shape) >>= _ : BlobProg α Unit) s = _
  rw [stdEqual_error_iff.mpr ⟨rfl, pre, ne⟩]
  rfl

theorem copyFrom_fatal (not_pre : ¬ (s.blob b).shape <+: (s.blob source).shape)
    (not_post : ¬ (s.blob source).shape <+: (s.blob b).shape) : copyFrom b source false s = .error .copyShape s := by
  rw [copyFrom, bind_apply]
  show (ofRun (stdEqual (s.blob b).shape (s.blob source).shape) >>= _ : BlobProg α Unit) s = _
  rw [stdEqual_false_iff.mpr ⟨not_pre, not_post⟩]
  rfl

theorem copyFrom_resize (not_pre : ¬ (s.blob b).shape <+: (s.blob source).shape)
    (not_post : ¬ (s.blob source).shape <+: (s.blob b).shape) (positive : ∀ d ∈ (s.blob source).shape, 0 < d) :
    copyFrom b source true s = copyData b source (s.reshaped b (s.blob source).shape) := by
  rw [copyFrom, bind_apply]
  show (ofRun (stdEqual (s.blob b).shape (s.blob source).shape) >>= _ : BlobProg α Unit) s = _
  rw [stdEqual_false_iff.mpr ⟨not_pre, not_post⟩]
  show (reshape b (s.blob source).shape >>= fun _ => copyData b source : BlobProg α Unit) s = _
  rw [bind_apply, reshape_apply b positive]

end CopyFrom

end BlobProg
end Singa
