import Singa.Utils.BlobMemory

/-!
# `utils/blob.cc`: runs of calls

The memory of every blob covers its shape throughout a run exactly if every
call of the run is roomy where it is made. Only `ShareData` can make a later
call fail to be: it can take a memory that is smaller than the capacity.
-/

namespace Singa
set_option autoImplicit false

open BlobHeap BlobProg

variable {α : Type} [Zero α]

namespace BlobCall

/-- The state that a run of calls leaves; the first call that stops is its last. -/
def run (s : BlobHeap α) : List (BlobCall α) → BlobHeap α
  | [] => s
  | c :: calls =>
    match c.perform s with
    | .ok _ s' => run s' calls
    | .error _ s' => s'

/-- Every call of a run is as `P` says in the state it is made in. -/
def Throughout (P : BlobHeap α → BlobCall α → Prop) (s : BlobHeap α) : List (BlobCall α) → Prop
  | [] => True
  | c :: calls => P s c ∧ ∀ s', c.perform s = .ok () s' → Throughout P s' calls

theorem run_single (s : BlobHeap α) (c : BlobCall α) : run s [c] = left (c.perform s) := by
  rw [run]
  cases c.perform s <;> rfl

/-- The shapes of all blobs are right after any run. -/
theorem run_shapes {calls : List (BlobCall α)} (positive : ∀ c ∈ calls, c.Positive) {s : BlobHeap α} (shapes : s.Shapes) :
    (run s calls).Shapes := by
  induction calls generalizing s with
  | nil => exact shapes
  | cons c calls ih =>
    have next := perform_shapes shapes c (positive c List.mem_cons_self)
    rw [run]
    cases result : c.perform s with
    | ok _ s' =>
      rw [result] at next
      exact ih (fun d mem => positive d (List.mem_cons_of_mem c mem)) next
    | error e s' =>
      rw [result] at next
      exact next

/-- The memories stay large enough exactly as long as the calls are roomy. -/
theorem run_covered_iff {calls : List (BlobCall α)} (positive : ∀ c ∈ calls, c.Positive) {s : BlobHeap α}
    (shapes : s.Shapes) (covered : s.Covered) : (∀ n, (run s (calls.take n)).Covered) ↔ Throughout Roomy s calls := by
  induction calls generalizing s with
  | nil => exact iff_of_true (fun n => by rw [List.take_nil]; exact covered) trivial
  | cons c calls ih =>
    have first := perform_covered_iff shapes covered c (positive c List.mem_cons_self)
    have shaped := perform_shapes shapes c (positive c List.mem_cons_self)
    have later : ∀ d ∈ calls, d.Positive := fun d mem => positive d (List.mem_cons_of_mem c mem)
    constructor
    · intro always
      have next := always 1
      rw [List.take_succ_cons, List.take_zero, run_single] at next
      refine ⟨first.mp next, fun s' returned => ?_⟩
      rw [returned] at next shaped
      apply (ih later shaped next).mp
      intro n
      have after := always (n + 1)
      rwa [List.take_succ_cons, run, returned] at after
    · rintro ⟨roomy, rest⟩ n
      have next := first.mpr roomy
      cases n with
      | zero => exact covered
      | succ n =>
        rw [List.take_succ_cons, run]
        cases result : c.perform s with
        | error e s' =>
          rw [result] at next
          exact next
        | ok _ s' =>
          rw [result] at next shaped
          exact (ih later shaped next).mpr (rest s' result) n

end BlobCall

open BlobCall

omit [Zero α] in
theorem init_shapes : (init : BlobHeap α).Shapes := fun _ => .inl rfl

omit [Zero α] in
theorem init_covered : (init : BlobHeap α).Covered := fun _ => le_rfl

/-- Every blob that is not as `Blob()` leaves it is well shaped, in every state that is reached. -/
theorem reached_shapes {calls : List (BlobCall α)} (positive : ∀ c ∈ calls, c.Positive) : (run init calls).Shapes :=
  run_shapes positive init_shapes

/-- **The memory of a blob covers its shape.** In every state of a run, exactly if no `Reshape` of it
keeps a memory that is too small. -/
theorem reached_memoryCovers_iff {calls : List (BlobCall α)} (positive : ∀ c ∈ calls, c.Positive) :
    (∀ n, (run init (calls.take n)).MemoryCovers) ↔ Throughout Roomy init calls := by
  rw [← run_covered_iff positive init_shapes init_covered]
  refine forall_congr' fun n => ?_
  have shapes := reached_shapes fun c (mem : c ∈ calls.take n) => positive c (List.mem_of_mem_take mem)
  exact shapes.memoryCovers_iff

/-! ## `ShareData` -/

/-- `ShareData` takes a memory that is as large as the capacity of the receiver. -/
def BlobCall.KeepsCapacity (s : BlobHeap α) : BlobCall α → Prop
  | shareData b other => (s.blob b).capacity ≤ s.allocated other
  | _ => True

namespace BlobHeap

/-- No capacity is more than the memory there is. -/
def Backed (s : BlobHeap α) : Prop := ∀ b, (s.blob b).capacity ≤ s.allocated b

omit [Zero α] in
theorem SameSizes.backed_iff {s s' : BlobHeap α} (same : s.SameSizes s') : s'.Backed ↔ s.Backed := by
  simp only [Backed, same.blob, same.allocated]

omit [Zero α] in
theorem Backed.setBlob {s : BlobHeap α} (backed : s.Backed) (b : Nat) {x : FloatBlob}
    (room : x.capacity ≤ s.size x.data) : (s.setBlob b x).Backed := by
  intro c
  rw [allocated, setBlob_size]
  by_cases same : c = b
  · rw [same, setBlob_blob_same]
    exact room
  · rw [setBlob_blob_ne s same]
    exact backed c

theorem Backed.reshaped {s : BlobHeap α} (backed : s.Backed) (b : Nat) (shape : List Nat) :
    (s.reshaped b shape).Backed := by
  intro c
  by_cases same : c = b
  · subst same
    have before := backed c
    rw [reshaped_capacity, reshaped_allocated]
    split <;> omega
  · rw [reshaped_blob_ne s same]
    exact (backed c).trans (reshaped_allocated_ne s same shape)

omit [Zero α] in
/-- Where no capacity is more than the memory, there is room for every count. -/
theorem Backed.roomFor {s : BlobHeap α} (backed : s.Backed) (b n : Nat) : s.RoomFor b n :=
  fun kept => kept.trans (backed b)

end BlobHeap

/-- Capacities stay within the memories as long as `ShareData` takes memories that are large enough. -/
theorem perform_backed {s : BlobHeap α} (shapes : s.Shapes) (backed : s.Backed) (c : BlobCall α) (positive : c.Positive)
    (keeps : c.KeepsCapacity s) : (left (c.perform s)).Backed := by
  rw [(perform_next shapes c positive).backed_iff]
  cases c with
  | construct b => exact backed.setBlob b (Nat.zero_le _)
  | constructShape b shape => exact (backed.setBlob b (Nat.zero_le _)).reshaped b shape
  | constructCopy b other => exact backed.setBlob b (backed other)
  | reshape b shape => exact backed.reshaped b shape
  | reshapeLike b other => exact backed.reshaped b _
  | copyFrom b source resize =>
    show (s.resized b source resize).Backed
    unfold resized
    split
    · exact backed.reshaped b _
    · exact backed
  | shareData b other =>
    show (s.shared b other).Backed
    unfold shared
    split
    · exact backed.setBlob b keeps
    · exact backed
  | swap b other =>
    show (s.swapped b other).Backed
    unfold swapped
    split
    · apply Backed.setBlob
      · exact backed.setBlob b (backed other)
      · rw [setBlob_size]
        exact backed b
    · exact backed
  | fromProto b shape data => exact backed.reshaped b shape

/-- The defect is that of `ShareData`: without a call of it that takes a smaller memory than the
receiver's capacity, every call is roomy. -/
theorem throughout_roomy {calls : List (BlobCall α)} (positive : ∀ c ∈ calls, c.Positive) {s : BlobHeap α}
    (shapes : s.Shapes) (backed : s.Backed) (keeps : Throughout KeepsCapacity s calls) : Throughout Roomy s calls := by
  induction calls generalizing s with
  | nil => trivial
  | cons c calls ih =>
    have head := positive c List.mem_cons_self
    refine ⟨?_, fun s' returned => ?_⟩
    · cases c with
      | reshape b shape => exact backed.roomFor b _
      | reshapeLike b other => exact backed.roomFor b _
      | copyFrom b source resize => exact fun _ => backed.roomFor b _
      | fromProto b shape data => exact backed.roomFor b _
      | construct b => trivial
      | constructShape b shape => trivial
      | constructCopy b other => trivial
      | shareData b other => trivial
      | swap b other => trivial
    · have next_shapes := perform_shapes shapes c head
      have next_backed := perform_backed shapes backed c head keeps.1
      rw [returned] at next_shapes next_backed
      exact ih (fun d mem => positive d (List.mem_cons_of_mem c mem)) next_shapes next_backed (keeps.2 s' returned)

/-- A blob of 4 elements is made smaller, shares the memory of one of 2, and is reshaped to 3. -/
def shrunkCalls : List (BlobCall ℚ) :=
  [.reshape 0 [4], .reshape 0 [2], .reshape 1 [2], .shareData 0 1, .reshape 0 [3]]

theorem shrunkCalls_not_memoryCovers :
    (∀ c ∈ shrunkCalls, c.Positive) ∧ ((run init shrunkCalls).blob 0).count = 3 ∧
      (run init shrunkCalls).allocated 0 = 2 ∧ ¬ (run init shrunkCalls).MemoryCovers := by
  have count : ((run init shrunkCalls).blob 0).count = 3 := by decide
  have allocated : (run init shrunkCalls).allocated 0 = 2 := by decide
  refine ⟨by simp [shrunkCalls, Positive], count, allocated, fun covers => ?_⟩
  have within := (covers 0 (.inr (by rw [count]; decide))).2
  rw [count, allocated] at within
  exact absurd within (by decide)

/-- Copies of blobs, a smaller shape and an exchange. -/
def copyCalls : List (BlobCall ℚ) :=
  [.constructShape 0 [2, 3], .constructCopy 1 0, .reshape 1 [2], .copyFrom 0 1 true, .reshapeLike 1 0, .swap 0 1]

theorem reached_memoryCovers_copies :
    (∀ c ∈ copyCalls, c.Positive) ∧ ∀ n, (run init (copyCalls.take n)).MemoryCovers := by
  have positive : ∀ c ∈ copyCalls, c.Positive := by simp [copyCalls, Positive]
  refine ⟨positive, (reached_memoryCovers_iff positive).mpr ?_⟩
  apply throughout_roomy positive init_shapes fun _ => le_rfl
  unfold copyCalls
  repeat first | trivial | refine ⟨trivial, fun _ _ => ?_⟩

end Singa
