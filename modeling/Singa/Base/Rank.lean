import Mathlib.Data.List.Sort
import Mathlib.Tactic

/-!
# Ranks

The rank of an element is the number of smaller ones. In a sorted list it is the
index of the element.
-/

namespace Singa
set_option autoImplicit false

variable {α : Type} [LinearOrder α]

/-- How many elements of `l` are smaller than `a`. -/
def rank (l : List α) (a : α) : Nat := l.countP (· < a)

section

variable {l m : List α} {a b : α}

theorem rank_lt (mem : a ∈ l) (lt : a < b) : rank l a < rank l b := by
  induction l with
  | nil => cases mem
  | cons c l ih =>
    have mono : rank l a ≤ rank l b :=
      List.countP_mono_left fun d _ less => decide_eq_true ((of_decide_eq_true less).trans lt)
    unfold rank at ih mono ⊢
    rw [List.countP_cons, List.countP_cons]
    rcases List.mem_cons.mp mem with rfl | mem
    · rw [if_neg (by simp), if_pos (decide_eq_true lt)]
      omega
    · specialize ih mem
      by_cases before : c < a
      · rw [if_pos (decide_eq_true before), if_pos (decide_eq_true (before.trans lt))]
        omega
      · rw [if_neg (by simpa using before)]
        omega

/-- A rank falls when elements go. -/
theorem rank_sublist (sub : l.Sublist m) (a : α) : rank l a ≤ rank m a := sub.countP_le

/-- A larger element does not count. -/
theorem rank_concat (larger : a ≤ b) : rank (l ++ [b]) a = rank l a := by
  unfold rank
  rw [List.countP_append, List.countP_singleton, if_neg (by simpa using larger), Nat.add_zero]

variable {p : α → Bool} (own : ∀ b, p b = true ↔ b = a)

include own in
/-- The index of an element of a sorted list is its rank. -/
theorem findIdx?_sorted (sorted : l.Pairwise (· < ·)) (mem : a ∈ l) : l.findIdx? p = some (rank l a) := by
  induction l with
  | nil => cases mem
  | cons b l ih =>
    obtain ⟨least, sorted⟩ := List.pairwise_cons.mp sorted
    unfold rank at ih ⊢
    rw [List.findIdx?_cons, List.countP_cons]
    rcases List.mem_cons.mp mem with rfl | mem
    · rw [if_pos ((own a).mpr rfl), if_neg (by simp), List.countP_eq_zero.mpr]
      intro c hc
      simpa using (least c hc).le
    · have less := least a mem
      rw [if_neg fun here => less.ne ((own b).mp here), ih sorted mem, if_pos (decide_eq_true less)]
      rfl

include own in
/-- Whatever the order in which the elements are listed, the index after sorting is the rank. -/
theorem findIdx?_insertionSort [DecidableRel fun b c : α => b ≤ c] (perm : m.Perm l) (sorted : l.Pairwise (· < ·))
    (mem : a ∈ l) : (m.insertionSort fun b c => b ≤ c).findIdx? p = some (rank l a) := by
  have same : (m.insertionSort fun b c => b ≤ c) = l :=
    List.Perm.eq_of_pairwise (fun _ _ _ _ => le_antisymm) (List.pairwise_insertionSort (fun b c => b ≤ c) m)
      (sorted.imp le_of_lt) ((List.perm_insertionSort (fun b c => b ≤ c) m).trans perm)
  rw [same, findIdx?_sorted own sorted mem]

end
end Singa
