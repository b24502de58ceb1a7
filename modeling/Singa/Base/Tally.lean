import Mathlib.Tactic

/-!
# Maps filled by a loop

Each element of a list adds to the value at its key. The value at one key is
made by the elements with that key alone, in their order.
-/

namespace Singa
set_option autoImplicit false

variable {α β κ : Type} [DecidableEq κ]

/-- Every element adds to the value at its key. -/
def tally (key : α → κ) (add : Option β → α → β) (l : List α) (m : κ → Option β) : κ → Option β :=
  l.foldl (fun m a => Function.update m (key a) (some (add (m (key a)) a))) m

variable {key : α → κ} {add : Option β → α → β}

theorem tally_append (l l' : List α) (m : κ → Option β) :
    tally key add (l ++ l') m = tally key add l' (tally key add l m) := by
  unfold tally
  rw [List.foldl_append]

theorem tally_apply (l : List α) (m : κ → Option β) (k : κ) :
    tally key add l m k = (l.filter (key · = k)).foldl (fun e a => some (add e a)) (m k) := by
  induction l generalizing m with
  | nil => rfl
  | cons a l ih =>
    have rest := ih (Function.update m (key a) (some (add (m (key a)) a)))
    unfold tally at rest ⊢
    rw [List.foldl_cons, rest]
    by_cases here : key a = k
    · rw [List.filter_cons_of_pos (by simpa using here), List.foldl_cons, ← here, Function.update_self]
    · rw [List.filter_cons_of_neg (by simpa using here), Function.update_of_ne (Ne.symm here)]

/-- A part of the loop without elements of the key does not count. -/
theorem tally_flatMap_apply {γ : Type} {parts : γ → List α} {l : List γ} {c : γ} {k : κ} (mem : c ∈ l)
    (nodup : l.Nodup) (others : ∀ d ∈ l, d ≠ c → ∀ a ∈ parts d, key a ≠ k) (m : κ → Option β) :
    tally key add (l.flatMap parts) m k = tally key add (parts c) m k := by
  have apart (l : List γ) (other : ∀ d ∈ l, ∀ a ∈ parts d, key a ≠ k) :
      (l.flatMap parts).filter (key · = k) = [] := by
    refine List.filter_eq_nil_iff.mpr fun a ha => ?_
    obtain ⟨d, hd, ha⟩ := List.mem_flatMap.mp ha
    simpa using other d hd a ha
  obtain ⟨before, after, rfl⟩ := List.append_of_mem mem
  obtain ⟨-, tail, away⟩ := List.nodup_append.mp nodup
  have fresh := (List.nodup_cons.mp tail).1
  rw [tally_apply, tally_apply, List.flatMap_append, List.flatMap_cons, List.filter_append, List.filter_append,
    apart before, apart after, List.nil_append, List.append_nil]
  · rintro d hd a ha
    refine others d (List.mem_append_right _ (List.mem_cons_of_mem c hd)) ?_ a ha
    rintro rfl
    exact fresh hd
  · rintro d hd a ha
    exact others d (List.mem_append_left _ hd) (away d hd c List.mem_cons_self) a ha

end Singa
