import Mathlib.Data.List.Basic
import Mathlib.Tactic

/-!
# Moving some elements to the end

`gather p order l` takes the elements with `p` out of `l` and puts them back at
its end, in the sequence in which they stand in `order`. That leaves a list as it
is exactly if these elements stand at its end in that sequence already
(`gather_eq_iff`).
-/

namespace Gather
set_option autoImplicit false

variable {α : Type*} [DecidableEq α] {p : α → Prop} [DecidablePred p] {order l : List α}

def gather (p : α → Prop) [DecidablePred p] (order l : List α) : List α :=
  l.filter (¬ p ·) ++ (order.filter p).flatMap fun a => List.replicate (l.count a) a

/-- The elements with `p` are the last ones, and in the sequence of `order`. -/
def InOrder (p : α → Prop) (order l : List α) : Prop :=
  l.Pairwise fun a b => p a → p b ∧ order.idxOf a ≤ order.idxOf b

instance (p : α → Prop) [DecidablePred p] (order l : List α) : Decidable (InOrder p order l) :=
  inferInstanceAs (Decidable (l.Pairwise _))

/-- A list without duplicates is in its own order. -/
theorem pairwise_idxOf (nodup : order.Nodup) : order.Pairwise fun a b => order.idxOf a ≤ order.idxOf b := by
  rw [List.pairwise_iff_getElem]
  intro i j hi hj less
  rw [nodup.idxOf_getElem i hi, nodup.idxOf_getElem j hj]
  exact less.le

/-- The elements that are put back are in order. -/
theorem pairwise_moved (nodup : order.Nodup) (f : α → Nat) :
    ((order.filter p).flatMap fun a => List.replicate (f a) a).Pairwise
      fun a b => order.idxOf a ≤ order.idxOf b := by
  refine List.pairwise_flatMap.mpr ⟨fun a _ => ?_, ?_⟩
  · exact List.pairwise_replicate.mpr (.inr le_rfl)
  · refine ((pairwise_idxOf nodup).filter _).imp fun le x hx y hy => ?_
    rwa [List.eq_of_mem_replicate hx, List.eq_of_mem_replicate hy]

theorem count_moved (distinct : l.Nodup) (f : α → Nat) (a : α) :
    (l.flatMap fun b => List.replicate (f b) b).count a = if a ∈ l then f a else 0 := by
  induction l with
  | nil => simp
  | cons b l ih =>
    obtain ⟨new, distinct⟩ := List.nodup_cons.mp distinct
    rw [List.flatMap_cons, List.count_append, ih distinct, List.count_replicate]
    by_cases here : b = a
    · subst here
      simp [new]
    · simp [here, Ne.symm here]

theorem inOrder_gather (nodup : order.Nodup) : InOrder p order (gather p order l) := by
  refine List.pairwise_append.mpr ⟨?_, ?_, ?_⟩
  · rw [List.pairwise_filter]
    refine List.pairwise_of_forall fun a b ha _ moved => ?_
    exact absurd moved (by simpa using ha)
  · refine (pairwise_moved nodup _).imp_of_mem fun _ hb le _ => ⟨?_, le⟩
    obtain ⟨c, hc, hb⟩ := List.mem_flatMap.mp hb
    rw [List.eq_of_mem_replicate hb]
    simpa using (List.mem_filter.mp hc).2
  · intro a ha b _ moved
    exact absurd moved (by simpa using (List.mem_filter.mp ha).2)

/-- In order, the elements with `p` follow the others. -/
theorem filter_append_filter (h : InOrder p order l) : l.filter (¬ p ·) ++ l.filter p = l := by
  induction l with
  | nil => rfl
  | cons a l ih =>
    obtain ⟨first, rest⟩ := List.pairwise_cons.mp h
    by_cases moved : p a
    · have none : l.filter (¬ p ·) = [] := by
        rw [List.filter_eq_nil_iff]
        intro b hb
        simpa using (first b hb moved).1
      have all := ih rest
      rw [none, List.nil_append] at all
      rw [List.filter_cons_of_neg (by simpa using moved), List.filter_cons_of_pos (by simpa using moved), none, all,
        List.nil_append]
    · simpa [moved] using ih rest

/-- The elements with `p` of a list in order are those that `gather` puts back. -/
theorem filter_eq_moved (nodup : order.Nodup) (known : ∀ a ∈ l, p a → a ∈ order) (h : InOrder p order l) :
    l.filter p = (order.filter p).flatMap fun a => List.replicate (l.count a) a := by
  have same : (l.filter p).Perm ((order.filter p).flatMap fun a => List.replicate (l.count a) a) := by
    refine List.perm_iff_count.mpr fun a => ?_
    rw [count_moved (nodup.filter _)]
    by_cases moved : p a
    · rw [List.count_filter (by simpa using moved)]
      split_ifs with there
      · rfl
      · refine List.count_eq_zero.mpr fun mem => there ?_
        exact List.mem_filter.mpr ⟨known a mem moved, by simpa using moved⟩
    · rw [if_neg (by simp [moved])]
      exact List.count_eq_zero.mpr (by simp [moved])
  have sorted : (l.filter p).Pairwise fun a b => order.idxOf a ≤ order.idxOf b := by
    refine (List.Pairwise.filter _ h).imp_of_mem fun ha _ le => ?_
    exact (le (by simpa using (List.mem_filter.mp ha).2)).2
  refine List.Perm.eq_of_pairwise ?_ sorted (pairwise_moved nodup _) same
  intro a b ha _ le le'
  obtain ⟨mem, moved⟩ := List.mem_filter.mp ha
  exact (List.idxOf_inj (known a mem (by simpa using moved))).mp (le.antisymm le')

theorem gather_eq_iff (nodup : order.Nodup) (known : ∀ a ∈ l, p a → a ∈ order) :
    gather p order l = l ↔ InOrder p order l := by
  constructor
  · intro eq
    rw [← eq]
    exact inOrder_gather nodup
  · intro h
    rw [gather, ← filter_eq_moved nodup known h]
    exact filter_append_filter h

theorem gather_subset (sub : l ⊆ order) : gather p order l ⊆ order := by
  refine List.append_subset.mpr ⟨fun a ha => sub (List.mem_of_mem_filter ha), fun a ha => ?_⟩
  obtain ⟨b, hb, ha⟩ := List.mem_flatMap.mp ha
  rw [List.eq_of_mem_replicate ha]
  exact List.mem_of_mem_filter hb

end Gather
