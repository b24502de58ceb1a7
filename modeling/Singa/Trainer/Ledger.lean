import Mathlib.Data.Finset.Basic
import Mathlib.Data.List.Count
import Mathlib.Tactic

/-!
# The messages of a put and a get

Every slice has one put and one get, and the get one response. `Ledger` keeps
track of which of them are in flight and of what was done with the others; each
step of the transfer takes one message out and puts the ones it causes in.
-/

namespace Singa
set_option autoImplicit false

/-- A message of the transfer. -/
inductive Token where
  | put
  | get
  | putSlice (idx : Nat)
  | getSlice (idx : Nat)
  | response (idx : Nat)
  deriving DecidableEq

/-- Whether the getting stub has sent its requests, the slices that a server keeps, those whose get was
answered and those whose response was parsed. -/
structure Progress where
  getDone : Bool
  stored : Finset Nat
  served : Finset Nat
  parsed : Finset Nat

/-- All slices were asked for and parsed. -/
def Progress.Complete (n : Nat) (g : Progress) : Prop := g.getDone = true ∧ 0 < n ∧ ∀ idx < n, idx ∈ g.parsed

/-- The same with the messages in flight, and whether the putting stub has sent its requests. -/
structure Ledger extends Progress where
  tokens : List Token
  putDone : Bool

namespace Ledger

/-- How often a message is in flight. -/
def expect (n : Nat) (l : Ledger) : Token → Nat
  | .put => if l.putDone then 0 else 1
  | .get => if l.getDone then 0 else 1
  | .putSlice idx => if idx < n ∧ l.putDone ∧ idx ∉ l.stored then 1 else 0
  | .getSlice idx => if idx < n ∧ l.getDone ∧ idx ∉ l.served then 1 else 0
  | .response idx => if idx < n ∧ idx ∈ l.served ∧ idx ∉ l.parsed then 1 else 0

/-- Every slice is put, got and answered once. -/
structure Ok (n : Nat) (l : Ledger) : Prop where
  count : ∀ t, l.tokens.count t = l.expect n t
  stored : ∀ idx ∈ l.stored, l.putDone = true
  served : ∀ idx ∈ l.served, l.getDone = true
  parsed : ∀ idx ∈ l.parsed, idx ∈ l.served

def initial : Ledger where
  tokens := [.put, .get]
  putDone := false
  getDone := false
  stored := ∅
  served := ∅
  parsed := ∅

theorem initial_ok (n : Nat) : initial.Ok n := by
  refine ⟨fun t => ?_, by simp [initial], by simp [initial], by simp [initial]⟩
  cases t <;> simp [initial, expect]

theorem count_slices {f : Nat → Token} (injective : Function.Injective f) (n idx : Nat) :
    ((List.range n).map f).count (f idx) = if idx < n then 1 else 0 := by
  rw [List.count_map_of_injective _ _ injective]
  split
  · exact List.count_eq_one_of_mem List.nodup_range (List.mem_range.mpr ‹_›)
  · rw [List.count_eq_zero, List.mem_range]
    assumption

theorem count_others {f : Nat → Token} {t : Token} (other : ∀ idx, f idx ≠ t) (n : Nat) :
    ((List.range n).map f).count t = 0 := by
  rw [List.count_eq_zero]
  simpa using fun idx _ => other idx

namespace Ok

variable {n i : Nat} {l l' : Ledger} {t : Token} {new : List Token}

theorem pending (ok : l.Ok n) (here : l.tokens[i]? = some t) : l.expect n t ≠ 0 := by
  rw [← ok.count]
  exact (List.count_pos_iff.mpr (List.mem_of_getElem? here)).ne'

/-- A message handled: the counts change by it and by the new messages. -/
theorem step (ok : l.Ok n) (here : l.tokens[i]? = some t) (tokens : l'.tokens = l.tokens.eraseIdx i ++ new)
    (change : ∀ t', l'.expect n t' + (if t = t' then 1 else 0) = l.expect n t' + new.count t') (t' : Token) :
    l'.tokens.count t' = l'.expect n t' := by
  obtain ⟨lt, rfl⟩ := List.getElem?_eq_some_iff.mp here
  have before : l.tokens.count t' = (l.tokens.eraseIdx i).count t' + if l.tokens[i] = t' then 1 else 0 := by
    rw [← (List.getElem_cons_eraseIdx_perm lt).count_eq, List.count_cons]
    simp
  have := change t'
  rw [← ok.count t'] at this
  rw [tokens, List.count_append]
  omega

/-- The putting stub sends its requests. -/
theorem put (ok : l.Ok n) (here : l.tokens[i]? = some .put) :
    Ok n { l with tokens := l.tokens.eraseIdx i ++ (List.range n).map .putSlice, putDone := true } := by
  have waits : l.putDone = false := by simpa [expect] using ok.pending here
  have empty : ∀ idx, idx ∉ l.stored := fun idx mem => by simpa [waits] using ok.stored idx mem
  refine ⟨ok.step here rfl fun t' => ?_, fun _ _ => rfl, ok.served, ok.parsed⟩
  cases t' with
  | putSlice idx => simp [expect, waits, empty, count_slices (fun _ _ => Token.putSlice.inj)]
  | put | get | getSlice | response => simp [expect, waits, count_others]

/-- The getting stub sends its requests. -/
theorem get (ok : l.Ok n) (here : l.tokens[i]? = some .get) :
    Ok n { l with tokens := l.tokens.eraseIdx i ++ (List.range n).map .getSlice, getDone := true } := by
  have waits : l.getDone = false := by simpa [expect] using ok.pending here
  have empty : ∀ idx, idx ∉ l.served := fun idx mem => by simpa [waits] using ok.served idx mem
  refine ⟨ok.step here rfl fun t' => ?_, ok.stored, fun _ _ => rfl, ok.parsed⟩
  cases t' with
  | getSlice idx => simp [expect, waits, empty, count_slices (fun _ _ => Token.getSlice.inj)]
  | put | get | putSlice | response => simp [expect, waits, count_others]

/-- A server stores a slice. -/
theorem store {idx : Nat} (ok : l.Ok n) (here : l.tokens[i]? = some (.putSlice idx)) :
    Ok n { l with tokens := l.tokens.eraseIdx i ++ [], stored := insert idx l.stored } := by
  obtain ⟨lt, done, new⟩ : idx < n ∧ l.putDone = true ∧ idx ∉ l.stored := by
    simpa [expect] using ok.pending here
  refine ⟨ok.step here rfl fun t' => ?_, fun _ _ => done, ok.served, ok.parsed⟩
  cases t' with
  | putSlice j =>
    by_cases same : idx = j
    · subst same
      simp [expect, lt, done, new]
    · simp [expect, same, Ne.symm same]
  | put | get | getSlice | response => simp [expect]

/-- A get that comes too early is queued again. -/
theorem requeue {idx : Nat} (ok : l.Ok n) (here : l.tokens[i]? = some (.getSlice idx)) :
    Ok n { l with tokens := l.tokens.eraseIdx i ++ [.getSlice idx] } := by
  refine ⟨ok.step here rfl fun t' => ?_, ok.stored, ok.served, ok.parsed⟩
  simp [expect, List.count_cons]
  
/-- A server answers a get. -/
theorem serve {idx : Nat} (ok : l.Ok n) (here : l.tokens[i]? = some (.getSlice idx)) :
    Ok n { l with tokens := l.tokens.eraseIdx i ++ [.response idx], served := insert idx l.served } := by
  obtain ⟨lt, done, new⟩ : idx < n ∧ l.getDone = true ∧ idx ∉ l.served := by
    simpa [expect] using ok.pending here
  have unparsed : idx ∉ l.parsed := fun mem => new (ok.parsed idx mem)
  refine ⟨ok.step here rfl fun t' => ?_, ok.stored, fun _ _ => done,
    fun j mem => Finset.mem_insert_of_mem (ok.parsed j mem)⟩
  cases t' with
  | getSlice j | response j =>
    by_cases same : idx = j
    · subst same
      simp [expect, lt, done, new, unparsed]
    · simp [expect, same, Ne.symm same]
  | put | get | putSlice => simp [expect]

/-- The getting stub parses a response. -/
theorem parse {idx : Nat} (ok : l.Ok n) (here : l.tokens[i]? = some (.response idx)) :
    Ok n { l with tokens := l.tokens.eraseIdx i ++ [], parsed := insert idx l.parsed } := by
  obtain ⟨lt, served, new⟩ : idx < n ∧ idx ∈ l.served ∧ idx ∉ l.parsed := by
    simpa [expect] using ok.pending here
  refine ⟨ok.step here rfl fun t' => ?_, ok.stored, ok.served, fun j mem => ?_⟩
  · cases t' with
    | response j =>
      by_cases same : idx = j
      · subst same
        simp [expect, lt, served, new]
      · simp [expect, same, Ne.symm same]
    | put | get | putSlice | getSlice => simp [expect]
  · rcases Finset.mem_insert.mp mem with rfl | mem
    · exact served
    · exact ok.parsed j mem

/-- With nothing in flight every slice was put and parsed. -/
theorem finished (ok : l.Ok n) (empty : l.tokens = []) :
    l.getDone = true ∧ ∀ idx < n, idx ∈ l.stored ∧ idx ∈ l.parsed := by
  have none : ∀ t, l.expect n t = 0 := fun t => by rw [← ok.count, empty, List.count_nil]
  have put : l.putDone = true := by simpa [expect] using none .put
  have get : l.getDone = true := by simpa [expect] using none .get
  refine ⟨get, fun idx lt => ?_⟩
  have stored : idx ∈ l.stored := by simpa [expect, lt, put] using none (.putSlice idx)
  have served : idx ∈ l.served := by simpa [expect, lt, get] using none (.getSlice idx)
  exact ⟨stored, by simpa [expect, lt, served] using none (.response idx)⟩

end Ok
end Ledger

end Singa
