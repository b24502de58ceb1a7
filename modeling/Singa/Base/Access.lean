import Mathlib.Tactic

/-!
# Programs whose accesses are recorded

A program works on buffers of fixed sizes and can stop with an error. Every read
and write is recorded with a tag that says on whose behalf it is made, also when
the program stops later or at the access itself. `Ends I m` is total
correctness with respect to an invariant of the buffers and a set of accesses:
the program returns, keeps the invariant and accesses only what it may.
-/

namespace Access
set_option autoImplicit false

variable {ε κ ι α β γ : Type}

/-- One access: its tag, the buffer and the index in it. -/
structure Entry (κ ι : Type) where
  tag : ι
  buffer : κ
  index : Nat
  deriving DecidableEq, Repr

/-- What a program leaves, whether it returns or stops. -/
structure Outcome (ε κ ι α β : Type) where
  trace : List (Entry κ ι)
  buffers : κ → List α
  result : Except ε β

def Prog (ε κ ι α β : Type) : Type := (κ → List α) → Outcome ε κ ι α β

namespace Prog

def pure (b : β) : Prog ε κ ι α β := fun s => ⟨[], s, .ok b⟩

def bind (m : Prog ε κ ι α β) (f : β → Prog ε κ ι α γ) : Prog ε κ ι α γ := fun s =>
  match (m s).result with
  | .error e => ⟨(m s).trace, (m s).buffers, .error e⟩
  | .ok b => ⟨(m s).trace ++ (f b (m s).buffers).trace, (f b (m s).buffers).buffers, (f b (m s).buffers).result⟩

instance : Monad (Prog ε κ ι α) where
  pure := pure
  bind := bind

/-- Stop. -/
def fail (e : ε) : Prog ε κ ι α β := fun s => ⟨[], s, .error e⟩

/-- A computation without accesses. -/
def ofExcept : Except ε β → Prog ε κ ι α β
  | .ok b => pure b
  | .error e => fail e

/-- Read an element; past the end the program stops with `e`. -/
def read (e : ε) (tag : ι) (buffer : κ) (index : Nat) : Prog ε κ ι α α := fun s =>
  ⟨[⟨tag, buffer, index⟩], s,
    match (s buffer)[index]? with
    | some a => .ok a
    | none => .error e⟩

/-- Write an element; past the end the program stops with `e`. -/
def write [DecidableEq κ] (e : ε) (tag : ι) (buffer : κ) (index : Nat) (a : α) : Prog ε κ ι α Unit := fun s =>
  ⟨[⟨tag, buffer, index⟩], Function.update s buffer ((s buffer).set index a),
    if index < (s buffer).length then .ok () else .error e⟩

theorem bind_ok {m : Prog ε κ ι α β} {f : β → Prog ε κ ι α γ} {s : κ → List α} {b : β} (h : (m s).result = .ok b) :
    (m >>= f) s = ⟨(m s).trace ++ (f b (m s).buffers).trace, (f b (m s).buffers).buffers,
      (f b (m s).buffers).result⟩ := by
  show bind m f s = _
  rw [bind, h]

theorem bind_error {m : Prog ε κ ι α β} {f : β → Prog ε κ ι α γ} {s : κ → List α} {e : ε}
    (h : (m s).result = .error e) : (m >>= f) s = ⟨(m s).trace, (m s).buffers, .error e⟩ := by
  show bind m f s = _
  rw [bind, h]

theorem ofExcept_ok_bind (b : β) (f : β → Prog ε κ ι α γ) : (ofExcept (.ok b) >>= f) = f b := rfl

theorem ofExcept_error_bind (e : ε) (f : β → Prog ε κ ι α γ) : (ofExcept (.error e) >>= f) = fail e := rfl

/-- If the whole returns, so does its first part. -/
theorem result_bind {m : Prog ε κ ι α β} {f : β → Prog ε κ ι α γ} {s : κ → List α} {c : γ}
    (h : ((m >>= f) s).result = .ok c) : ∃ b, (m s).result = .ok b := by
  cases result : (m s).result with
  | ok b => exact ⟨b, rfl⟩
  | error e =>
    rw [bind_error result] at h
    cases h

/-- What has been accessed stays in the record. -/
theorem mem_trace_bind {m : Prog ε κ ι α β} (f : β → Prog ε κ ι α γ) {s : κ → List α} {x : Entry κ ι}
    (h : x ∈ (m s).trace) : x ∈ ((m >>= f) s).trace := by
  cases result : (m s).result with
  | ok b =>
    rw [bind_ok result]
    exact List.mem_append_left _ h
  | error e =>
    rw [bind_error result]
    exact h

/-- An access of the second program, if the first one returns. -/
theorem mem_trace_bind_right {m : Prog ε κ ι α β} {f : β → Prog ε κ ι α γ} {s : κ → List α} {b : β}
    (returned : (m s).result = .ok b) {x : Entry κ ι} (h : x ∈ (f b (m s).buffers).trace) :
    x ∈ ((m >>= f) s).trace := by
  rw [bind_ok returned]
  exact List.mem_append_right _ h

end Prog

/-- A loop that returned has taken all of its passes, and has recorded what they accessed. -/
theorem Prog.foldlM_passes {l : List β} {f : γ → β → Prog ε κ ι α γ} {c r : γ} {s : κ → List α}
    (returned : (l.foldlM f c s).result = .ok r) :
    ∀ b ∈ l, ∃ c' s', (∃ r', (f c' b s').result = .ok r') ∧ ∀ x ∈ (f c' b s').trace, x ∈ (l.foldlM f c s).trace := by
  induction l generalizing c s with
  | nil => simp
  | cons b l ih =>
    rw [List.foldlM_cons] at returned ⊢
    cases first : (f c b s).result with
    | error e =>
      rw [bind_error first] at returned
      cases returned
    | ok c' =>
      have rest := returned
      rw [bind_ok first] at rest
      intro d mem
      rcases List.mem_cons.mp mem with rfl | mem
      · exact ⟨c, s, ⟨c', first⟩, fun x listed => mem_trace_bind _ listed⟩
      · obtain ⟨c'', s'', ended, listed⟩ := ih rest d mem
        exact ⟨c'', s'', ended, fun x h => mem_trace_bind_right first (listed x h)⟩

/-! ## Total correctness -/

variable {I : (κ → List α) → Prop} {P : Entry κ ι → Prop}

/-- The program returns, keeps the invariant and accesses only what `P` allows. -/
def Ends (I : (κ → List α) → Prop) (P : Entry κ ι → Prop) (m : Prog ε κ ι α β) : Prop :=
  ∀ s, I s → (∃ b, (m s).result = .ok b) ∧ I (m s).buffers ∧ ∀ x ∈ (m s).trace, P x

namespace Ends

theorem pure (b : β) : Ends I P (Pure.pure b : Prog ε κ ι α β) :=
  fun _ inv => ⟨⟨b, rfl⟩, inv, fun _ mem => absurd mem List.not_mem_nil⟩

theorem bind {m : Prog ε κ ι α β} {f : β → Prog ε κ ι α γ} (first : Ends I P m) (rest : ∀ b, Ends I P (f b)) :
    Ends I P (m >>= f) := by
  intro s inv
  obtain ⟨⟨b, returned⟩, inv', allowed⟩ := first s inv
  obtain ⟨last, inv'', allowed'⟩ := rest b (m s).buffers inv'
  rw [Prog.bind_ok returned]
  refine ⟨last, inv'', fun x mem => ?_⟩
  rcases List.mem_append.mp mem with mem | mem
  · exact allowed x mem
  · exact allowed' x mem

theorem foldlM {l : List β} {f : γ → β → Prog ε κ ι α γ} (pass : ∀ b ∈ l, ∀ c, Ends I P (f c b)) (c : γ) :
    Ends I P (l.foldlM f c) := by
  induction l generalizing c with
  | nil => exact pure c
  | cons b l ih =>
    rw [List.foldlM_cons]
    exact bind (pass b List.mem_cons_self c) fun c => ih (fun d mem => pass d (List.mem_cons_of_mem b mem)) c

theorem each {l : List β} {f : β → Prog ε κ ι α Unit} (pass : ∀ b ∈ l, Ends I P (f b)) : Ends I P (forM l f) := by
  induction l with
  | nil => exact pure ()
  | cons b l ih =>
    rw [List.forM_cons]
    exact bind (pass b List.mem_cons_self) fun _ => ih fun d mem => pass d (List.mem_cons_of_mem b mem)

theorem read {e : ε} {tag : ι} {buffer : κ} {index : Nat} (allowed : P ⟨tag, buffer, index⟩)
    (within : ∀ s, I s → index < (s buffer).length) : Ends I P (Prog.read e tag buffer index : Prog ε κ ι α α) := by
  intro s inv
  refine ⟨⟨(s buffer).get ⟨index, within s inv⟩, ?_⟩, inv, fun x mem => ?_⟩
  · show (match (s buffer)[index]? with
      | some a => Except.ok a
      | none => Except.error e) = _
    rw [List.getElem?_eq_getElem (within s inv)]
    rfl
  · rw [List.mem_singleton.mp mem]
    exact allowed

theorem write [DecidableEq κ] {e : ε} {tag : ι} {buffer : κ} {index : Nat} {a : α} (allowed : P ⟨tag, buffer, index⟩)
    (within : ∀ s, I s → index < (s buffer).length)
    (kept : ∀ s, I s → I (Function.update s buffer ((s buffer).set index a))) :
    Ends I P (Prog.write e tag buffer index a : Prog ε κ ι α Unit) := by
  intro s inv
  refine ⟨⟨(), if_pos (within s inv)⟩, kept s inv, fun x mem => ?_⟩
  rw [List.mem_singleton.mp mem]
  exact allowed

end Ends

/-- After a program that ends the next one is run, and its accesses and its result are those of the whole. -/
theorem Ends.next {m : Prog ε κ ι α β} (ends : Ends I P m) {s : κ → List α} (inv : I s) (f : β → Prog ε κ ι α γ) :
    ∃ b s', I s' ∧ ((m >>= f) s).result = (f b s').result ∧ ∀ x ∈ (f b s').trace, x ∈ ((m >>= f) s).trace := by
  obtain ⟨⟨b, returned⟩, inv', -⟩ := ends s inv
  refine ⟨b, (m s).buffers, inv', ?_, fun x mem => Prog.mem_trace_bind_right returned mem⟩
  rw [Prog.bind_ok returned]

/-- A loop whose first passes end comes to the next one. -/
theorem Ends.reaches {f : β → Prog ε κ ι α Unit} {first : List β} (ends : ∀ b ∈ first, Ends I P (f b)) (b : β)
    (rest : List β) {s : κ → List α} (inv : I s) :
    ∃ s', I s' ∧ ∀ x ∈ (f b s').trace, x ∈ (forM (first ++ b :: rest) f s).trace := by
  induction first generalizing s with
  | nil =>
    refine ⟨s, inv, fun x mem => ?_⟩
    rw [List.nil_append, List.forM_cons]
    exact Prog.mem_trace_bind _ mem
  | cons c first ih =>
    rw [List.cons_append, List.forM_cons]
    obtain ⟨u, s', inv', -, listed⟩ :=
      (ends c List.mem_cons_self).next inv fun _ => forM (first ++ b :: rest) f
    obtain ⟨s'', inv'', reached⟩ := ih (fun d mem => ends d (List.mem_cons_of_mem c mem)) inv'
    exact ⟨s'', inv'', fun x mem => listed x (reached x mem)⟩

/-- The buffers have the given sizes. -/
def Sized (size : κ → Nat) (s : κ → List α) : Prop := ∀ b, (s b).length = size b

theorem Sized.write [DecidableEq κ] {size : κ → Nat} {s : κ → List α} (sized : Sized size s) (buffer : κ) (index : Nat)
    (a : α) : Sized size (Function.update s buffer ((s buffer).set index a)) := by
  intro b
  by_cases same : b = buffer
  · subst same
    rw [Function.update_self, List.length_set]
    exact sized b
  · rw [Function.update_of_ne same]
    exact sized b

/-- A program that only writes keeps the sizes. -/
theorem Ends.write_sized [DecidableEq κ] {size : κ → Nat} {e : ε} {tag : ι} {buffer : κ} {index : Nat} {a : α}
    (allowed : P ⟨tag, buffer, index⟩) (within : index < size buffer) :
    Ends (Sized size) P (Prog.write e tag buffer index a : Prog ε κ ι α Unit) :=
  Ends.write allowed (fun s sized => by rw [sized buffer]; exact within) fun _ sized => sized.write buffer index a

theorem Ends.read_sized {size : κ → Nat} {e : ε} {tag : ι} {buffer : κ} {index : Nat}
    (allowed : P ⟨tag, buffer, index⟩) (within : index < size buffer) :
    Ends (Sized size) P (Prog.read e tag buffer index : Prog ε κ ι α α) :=
  Ends.read allowed fun s sized => by rw [sized buffer]; exact within

end Access
