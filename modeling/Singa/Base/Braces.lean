import Mathlib.Tactic

/-!
# Counting braces

A text is read from left to right with the number of braces that are open. A
block ends where a closing brace brings the number to 0. `depth` is what is open
after a text that does not end a block, and `blockEnd` how far it is to the end.
-/

namespace Braces
set_option autoImplicit false

variable {α : Type} [DecidableEq α] (o c : α)

/-- The open braces after a text, `n` being open before; `none` if the last of them is closed. -/
def depth : Nat → List α → Option Nat
  | n, [] => some n
  | n, a :: s =>
    if a = o then depth (n + 1) s
    else if a = c then if n ≤ 1 then none else depth (n - 1) s
    else depth n s

/-- How far it is to the brace that closes the last one, or to the end of the text. -/
def blockEnd : Nat → List α → Nat
  | _, [] => 0
  | n, a :: s =>
    if a = o then blockEnd (n + 1) s + 1
    else if a = c then if n ≤ 1 then 0 else blockEnd (n - 1) s + 1
    else blockEnd n s + 1

variable {o c} {n m : Nat} {s t : List α}

theorem depth_append : depth o c n (s ++ t) = (depth o c n s).bind fun m => depth o c m t := by
  induction s generalizing n with
  | nil => rfl
  | cons a s ih =>
    rw [List.cons_append, depth, depth]
    split
    · exact ih
    · split
      · split
        · rfl
        · exact ih
      · exact ih

theorem depth_append_some (h : depth o c n s = some m) : depth o c n (s ++ t) = depth o c m t := by
  rw [depth_append, h]
  rfl

/-- The first part of a text that ends no block ends none. -/
theorem depth_left (h : depth o c n (s ++ t) = some m) : ∃ k, depth o c n s = some k ∧ depth o c k t = some m := by
  rw [depth_append] at h
  exact Option.bind_eq_some_iff.mp h

theorem depth_plain (noOpen : o ∉ s) (noClose : c ∉ s) : depth o c n s = some n := by
  induction s with
  | nil => rfl
  | cons a s ih =>
    obtain ⟨ho, noOpen⟩ := not_or.mp (mt List.mem_cons.mpr noOpen)
    obtain ⟨hc, noClose⟩ := not_or.mp (mt List.mem_cons.mpr noClose)
    rw [depth, if_neg (Ne.symm ho), if_neg (Ne.symm hc), ih noOpen noClose]

/-- Only the braces count. -/
theorem depth_filter : depth o c n (s.filter fun a => a = o ∨ a = c) = depth o c n s := by
  induction s generalizing n with
  | nil => rfl
  | cons a s ih =>
    by_cases brace : a = o ∨ a = c
    · rw [List.filter_cons_of_pos (by simpa using brace), depth, depth]
      simp only [ih]
    · rw [List.filter_cons_of_neg (by simpa using brace), depth, if_neg fun h => brace (.inl h),
        if_neg fun h => brace (.inr h), ih]

/-- Something is open until the block ends. -/
theorem depth_pos (pos : 1 ≤ n) (h : depth o c n s = some m) : 1 ≤ m := by
  induction s generalizing n with
  | nil =>
    cases h
    exact pos
  | cons a s ih =>
    rw [depth] at h
    split at h
    · exact ih (by omega) h
    · split at h
      · split at h
        · cases h
        · exact ih (by omega) h
      · exact ih pos h

/-- More that is open before stays open. -/
theorem depth_add (pos : 1 ≤ n) (h : depth o c n s = some m) (k : Nat) : depth o c (n + k) s = some (m + k) := by
  induction s generalizing n with
  | nil =>
    cases h
    rfl
  | cons a s ih =>
    rw [depth] at h ⊢
    split at h
    · rw [if_pos ‹_›, show n + k + 1 = n + 1 + k by omega]
      exact ih (by omega) h
    · rw [if_neg ‹_›]
      split at h
      · split at h
        · cases h
        · rw [if_pos ‹_›, if_neg (by omega), show n + k - 1 = n - 1 + k by omega]
          exact ih (by omega) h
      · rw [if_neg ‹_›]
        exact ih pos h

/-- A text that does not end the block is passed over. -/
theorem blockEnd_append (h : depth o c n s = some m) : blockEnd o c n (s ++ t) = s.length + blockEnd o c m t := by
  induction s generalizing n with
  | nil =>
    cases h
    simp
  | cons a s ih =>
    rw [depth] at h
    rw [List.cons_append, blockEnd, List.length_cons]
    split at h
    · rw [if_pos ‹_›, ih h]
      omega
    · rw [if_neg ‹_›]
      split at h
      · split at h
        · cases h
        · rw [if_pos ‹_›, if_neg ‹_›, ih h]
          omega
      · rw [if_neg ‹_›, ih h]
        omega

/-- Where a block ends: at a closing brace when one is open, or the text ends before. -/
theorem blockEnd_cases (pos : 1 ≤ n) (s : List α) :
    (∃ u v, s = u ++ c :: v ∧ depth o c n u = some 1 ∧ blockEnd o c n s = u.length) ∨
      ∃ m, depth o c n s = some m ∧ blockEnd o c n s = s.length := by
  induction s generalizing n with
  | nil => exact .inr ⟨n, rfl, rfl⟩
  | cons a s ih =>
    rw [blockEnd]
    by_cases ho : a = o
    · rw [if_pos ho]
      rcases ih (n := n + 1) (by omega) with ⟨u, v, rfl, open_, stop⟩ | ⟨m, whole, stop⟩
      · exact .inl ⟨a :: u, v, rfl, by rw [depth, if_pos ho, open_], by rw [stop, List.length_cons]⟩
      · exact .inr ⟨m, by rw [depth, if_pos ho, whole], by rw [stop, List.length_cons]⟩
    · rw [if_neg ho]
      by_cases hc : a = c
      · rw [if_pos hc]
        by_cases last : n ≤ 1
        · rw [if_pos last]
          have one : n = 1 := by omega
          exact .inl ⟨[], s, by rw [hc]; rfl, by rw [one]; rfl, rfl⟩
        · rw [if_neg last]
          rcases ih (n := n - 1) (by omega) with ⟨u, v, rfl, open_, stop⟩ | ⟨m, whole, stop⟩
          · exact .inl ⟨a :: u, v, rfl, by rw [depth, if_neg ho, if_pos hc, if_neg last, open_],
              by rw [stop, List.length_cons]⟩
          · exact .inr ⟨m, by rw [depth, if_neg ho, if_pos hc, if_neg last, whole], by rw [stop, List.length_cons]⟩
      · rw [if_neg hc]
        rcases ih pos with ⟨u, v, rfl, open_, stop⟩ | ⟨m, whole, stop⟩
        · exact .inl ⟨a :: u, v, rfl, by rw [depth, if_neg ho, if_neg hc, open_], by rw [stop, List.length_cons]⟩
        · exact .inr ⟨m, by rw [depth, if_neg ho, if_neg hc, whole], by rw [stop, List.length_cons]⟩

omit [DecidableEq α] in
/-- Two ways to cut a text at a letter: at the same place, or the second one before the first. -/
theorem cut_cases {l l' r r' : List α} {a : α} (same : l ++ a :: r = l' ++ a :: r') (none : a ∉ l') :
    (l = l' ∧ r = r') ∨ ∃ w, l = l' ++ a :: w ∧ w ++ a :: r = r' := by
  induction l' generalizing l with
  | nil =>
    cases l with
    | nil => exact .inl ⟨rfl, (List.cons.inj same).2⟩
    | cons b l =>
      obtain ⟨rfl, rest⟩ := List.cons.inj same
      exact .inr ⟨l, rfl, rest⟩
  | cons b l' ih =>
    obtain ⟨head, later⟩ := not_or.mp (mt List.mem_cons.mpr none)
    cases l with
    | nil => exact absurd (List.cons.inj same).1 head
    | cons b' l =>
      obtain ⟨rfl, rest⟩ := List.cons.inj same
      rcases ih rest later with ⟨rfl, rfl⟩ | ⟨w, rfl, rfl⟩
      · exact .inl ⟨rfl, rfl⟩
      · exact .inr ⟨w, rfl, rfl⟩

omit [DecidableEq α] in
/-- A text is not cut at a letter in a part that does not have it. -/
theorem cut_behind {l r s t : List α} {a : α} (same : l ++ r = s ++ a :: t) (none : a ∉ l) :
    ∃ w, s = l ++ w ∧ r = w ++ a :: t := by
  induction l generalizing s with
  | nil => exact ⟨s, rfl, same⟩
  | cons b l ih =>
    obtain ⟨head, later⟩ := not_or.mp (mt List.mem_cons.mpr none)
    cases s with
    | nil => exact absurd (List.cons.inj same).1.symm head
    | cons b' s =>
      obtain ⟨rfl, rest⟩ := List.cons.inj same
      obtain ⟨w, rfl, whole⟩ := ih rest later
      exact ⟨w, rfl, whole⟩

/-- A text is cut at a closing brace that ends a block, or nowhere. -/
def Cut (o c : α) (n : Nat) (s t : List α) : Prop := s = t ∨ ∃ r, t = s ++ c :: r ∧ depth o c n s = some 1

/-- Of two parts the second one is cut, or the first. -/
theorem Cut.split {l r : List α} (pos : 1 ≤ n) (cut : Cut o c n s (l ++ r)) :
    (∃ s' k, s = l ++ s' ∧ 1 ≤ k ∧ (∀ m, depth o c n l = some m → k = m) ∧ Cut o c k s' r) ∨ ∃ t, l = s ++ c :: t := by
  rcases cut with rfl | ⟨t, whole, one⟩
  · left
    cases inside : depth o c n l with
    | none => exact ⟨r, 1, rfl, le_rfl, nofun, .inl rfl⟩
    | some m => exact ⟨r, m, rfl, depth_pos pos inside, fun k same => Option.some.inj same, .inl rfl⟩
  · rcases List.append_eq_append_iff.mp whole with ⟨s', rfl, rest⟩ | ⟨u, rfl, rest⟩
    · left
      obtain ⟨k, first, second⟩ := depth_left one
      exact ⟨s', k, rfl, depth_pos pos first, fun m same => Option.some.inj (first.symm.trans same), .inr ⟨t, rest, second⟩⟩
    · cases u with
      | nil =>
        left
        refine ⟨[], 1, by simp, le_rfl, fun m same => ?_, .inr ⟨t, rest.symm, rfl⟩⟩
        rw [List.append_nil] at same
        exact Option.some.inj (one.symm.trans same)
      | cons a u =>
        obtain ⟨rfl, -⟩ := List.cons.inj rest
        exact .inr ⟨u, rfl⟩

/-- The second part is cut, if the first one cannot be. -/
theorem Cut.right {l r : List α} (pos : 1 ≤ n) (cut : Cut o c n s (l ++ r)) (none : c ∉ l) (inside : depth o c n l = some m) :
    ∃ s', s = l ++ s' ∧ Cut o c m s' r := by
  rcases cut.split pos with ⟨s', k, whole, -, same, cut⟩ | ⟨t, rfl⟩
  · rw [same m inside] at cut
    exact ⟨s', whole, cut⟩
  · exact absurd (by simp) none

/-- A block in a text that is cut outside of it ends there, or the text is not cut at all. -/
theorem Cut.block {r : List α} (apart : c ≠ o) (pos : 1 ≤ n) (cut : Cut o c (n + 1) s r) :
    (∃ u v w, s = u ++ c :: v ∧ r = u ++ c :: w ∧ depth o c 1 u = some 1 ∧ blockEnd o c 1 s = u.length ∧ Cut o c n v w) ∨
      s = r ∧ ∃ m, depth o c 1 s = some m ∧ blockEnd o c 1 s = s.length := by
  rcases blockEnd_cases (o := o) (c := c) le_rfl s with ⟨u, v, rfl, inside, stop⟩ | ⟨m, inside, stop⟩
  · left
    rcases cut with rfl | ⟨t, rfl, one⟩
    · exact ⟨u, v, v, rfl, rfl, inside, stop, .inl rfl⟩
    · refine ⟨u, v, v ++ c :: t, rfl, by simp, inside, stop, .inr ⟨t, rfl, ?_⟩⟩
      have more := depth_add le_rfl inside n
      rw [show n + 1 = 1 + n by omega, depth_append_some more, depth, if_neg apart, if_pos rfl, if_neg (by omega),
        Nat.add_sub_cancel_left] at one
      exact one
  · right
    rcases cut with rfl | ⟨t, rfl, one⟩
    · exact ⟨rfl, m, inside, stop⟩
    · have more := depth_add le_rfl inside n
      rw [show 1 + n = n + 1 by omega, one] at more
      have open_ := depth_pos le_rfl inside
      have same := Option.some.inj more
      omega

end Braces
