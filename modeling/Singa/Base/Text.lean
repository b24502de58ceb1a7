import Mathlib.Data.List.DropRight
import Mathlib.Tactic

/-!
# Splitting and stripping text

A text is a list of characters. `split` cuts it at every occurrence of a
separator from left to right, and `strip` drops characters at both ends. One
character separators are those of `List.splitOn`.
-/

namespace Singa.Text
set_option autoImplicit false

variable {α : Type}

/-! ## Occurrences -/

section Occurrences

variable {sep : List α}

/-- An occurrence that starts before a character that is not in the separator ends before it. -/
theorem prefix_append_cons {l r : List α} {c : α} (apart : c ∉ sep) (start : sep <+: l ++ c :: r) : sep <+: l := by
  refine List.prefix_of_prefix_length_le start (List.prefix_append l (c :: r)) ?_
  by_contra long
  obtain ⟨rest, same⟩ := start
  have get : (sep ++ rest)[l.length]? = some c := by
    rw [same]
    simp
  rw [List.getElem?_append_left (by omega)] at get
  exact apart (List.mem_of_getElem? get)

/-- A character that is not in the separator keeps occurrences apart. -/
theorem infix_append_cons {l r : List α} {c : α} (apart : c ∉ sep) :
    sep <:+: l ++ c :: r ↔ sep <:+: l ∨ sep <:+: r := by
  constructor
  · intro inside
    induction l with
    | nil =>
      rcases List.infix_cons_iff.mp inside with start | inside
      · exact .inl (prefix_append_cons (l := []) apart start).isInfix
      · exact .inr inside
    | cons d l ih =>
      rcases List.infix_cons_iff.mp inside with start | inside
      · exact .inl (prefix_append_cons (l := d :: l) apart start).isInfix
      · rcases ih inside with left | right
        · exact .inl (left.trans (List.suffix_cons d l).isInfix)
        · exact .inr right
  · rintro (left | right)
    · exact left.trans (List.prefix_append l (c :: r)).isInfix
    · exact right.trans ((List.suffix_cons c r).trans (List.suffix_append l (c :: r))).isInfix

end Occurrences

/-! ## Strip -/

/-- The characters that `p` takes are dropped at both ends. -/
def strip (p : α → Bool) (s : List α) : List α := (s.dropWhile p).rdropWhile p

variable {p q : α → Bool}

theorem strip_within (p : α → Bool) (s : List α) : strip p s <:+: s :=
  (List.rdropWhile_prefix p _).isInfix.trans (List.dropWhile_suffix p).isInfix

theorem strip_cons {c : α} (h : p c) (s : List α) : strip p (c :: s) = strip p s := by
  rw [strip, List.dropWhile_cons_of_pos h, strip]

theorem strip_concat {c : α} (h : p c) (s : List α) : strip p (s ++ [c]) = strip p s := by
  unfold strip
  rw [List.dropWhile_append]
  cases kept : s.dropWhile p with
  | nil => simp [h]
  | cons d ds =>
    rw [if_neg (by simp), List.rdropWhile_concat_pos p _ c h]

theorem strip_append {r : List α} (h : ∀ c ∈ r, p c) (s : List α) : strip p (s ++ r) = strip p s := by
  induction r using List.reverseRecOn with
  | nil => rw [List.append_nil]
  | append_singleton r c ih =>
    rw [← List.append_assoc, strip_concat (h c (by simp)), ih fun d hd => h d (List.mem_append_left _ hd)]

/-- What fewer characters are dropped for is dropped again. -/
theorem strip_dropWhile (h : ∀ c, q c → p c) (s : List α) : strip p (s.dropWhile q) = strip p s := by
  induction s with
  | nil => rfl
  | cons c s ih =>
    by_cases here : q c
    · rw [List.dropWhile_cons_of_pos here, strip_cons (h c here), ih]
    · rw [List.dropWhile_cons_of_neg here]

theorem strip_rdropWhile (h : ∀ c, q c → p c) (s : List α) : strip p (s.rdropWhile q) = strip p s := by
  induction s using List.reverseRecOn with
  | nil => rfl
  | append_singleton s c ih =>
    by_cases here : q c
    · rw [List.rdropWhile_concat_pos q s c here, strip_concat (h c here), ih]
    · rw [List.rdropWhile_concat_neg q s c here]

theorem strip_eq_self {s : List α} (h : ∀ c ∈ s, ¬ p c) : strip p s = s := by
  have left : s.dropWhile p = s := by
    cases s with
    | nil => rfl
    | cons c s => exact List.dropWhile_cons_of_neg (h c (by simp))
  rw [strip, left]
  exact List.rdropWhile_eq_self_iff.mpr fun some => h _ (List.getLast_mem some)

theorem dropWhile_append_cons {c : α} (h : ¬ p c) (l r : List α) :
    (l ++ c :: r).dropWhile p = l.dropWhile p ++ c :: r := by
  induction l with
  | nil => exact List.dropWhile_cons_of_neg h
  | cons d l ih =>
    by_cases here : p d
    · rw [List.cons_append, List.dropWhile_cons_of_pos here, List.dropWhile_cons_of_pos here, ih]
    · rw [List.cons_append, List.dropWhile_cons_of_neg here, List.dropWhile_cons_of_neg here, List.cons_append]

theorem rdropWhile_append_cons {c : α} (h : ¬ p c) (l r : List α) :
    (l ++ c :: r).rdropWhile p = l ++ c :: r.rdropWhile p := by
  induction r using List.reverseRecOn with
  | nil => exact List.rdropWhile_concat_neg p l c h
  | append_singleton r d ih =>
    have shift : l ++ c :: (r ++ [d]) = (l ++ c :: r) ++ [d] := by simp
    rw [shift]
    by_cases here : p d
    · rw [List.rdropWhile_concat_pos p _ d here, List.rdropWhile_concat_pos p r d here, ih]
    · rw [List.rdropWhile_concat_neg p _ d here, List.rdropWhile_concat_neg p r d here, shift]

/-- Stripping stops at a character that is kept, from both sides. -/
theorem strip_append_cons {c : α} (h : ¬ p c) (l r : List α) :
    strip p (l ++ c :: r) = l.dropWhile p ++ c :: r.rdropWhile p := by
  rw [strip, dropWhile_append_cons h, rdropWhile_append_cons h]

/-! ## Split -/

section Split

variable [DecidableEq α]

/-- What is before the first occurrence of `sep`, and what is behind it. -/
def cut (sep : List α) : List α → Option (List α × List α)
  | [] => none
  | c :: cs => if sep <+: c :: cs then some ([], (c :: cs).drop sep.length) else (cut sep cs).map (Prod.map (c :: ·) id)

def splitLoop (sep : List α) : Nat → List α → List (List α)
  | 0, s => [s]
  | fuel + 1, s =>
    match cut sep s with
    | none => [s]
    | some (before, behind) => before :: splitLoop sep fuel behind

/-- `s.split(sep)` for a separator that is not empty. -/
def split (sep s : List α) : List (List α) := splitLoop sep s.length s

variable {sep s before behind : List α}

theorem cut_none (h : ¬ sep <:+: s) : cut sep s = none := by
  induction s with
  | nil => rfl
  | cons c cs ih =>
    have here : ¬ sep <+: c :: cs := fun start => h start.isInfix
    have later : ¬ sep <:+: cs := fun inside => h (inside.trans (List.suffix_cons c cs).isInfix)
    rw [cut, if_neg here, ih later]
    rfl

theorem cut_some (nonempty : sep ≠ []) (h : sep <:+: s) : ∃ before behind, cut sep s = some (before, behind) := by
  induction s with
  | nil => exact absurd (List.infix_nil.mp h) nonempty
  | cons c cs ih =>
    rw [cut]
    by_cases here : sep <+: c :: cs
    · exact ⟨_, _, if_pos here⟩
    · obtain ⟨before, behind, later⟩ := ih ((List.infix_cons_iff.mp h).resolve_left here)
      exact ⟨c :: before, behind, by rw [if_neg here, later]; rfl⟩

/-- The separator is in front, or the first part begins with the first character. -/
theorem cut_cons {c : α} (h : cut sep (c :: s) = some (before, behind)) :
    (sep <+: c :: s ∧ before = [] ∧ behind = (c :: s).drop sep.length) ∨
      (¬ sep <+: c :: s ∧ ∃ before', cut sep s = some (before', behind) ∧ before = c :: before') := by
  rw [cut] at h
  by_cases here : sep <+: c :: s
  · rw [if_pos here] at h
    obtain ⟨rfl, rfl⟩ := Prod.mk.inj (Option.some.inj h)
    exact .inl ⟨here, rfl, rfl⟩
  · rw [if_neg here] at h
    obtain ⟨⟨before', behind'⟩, later, same⟩ := Option.map_eq_some_iff.mp h
    obtain ⟨rfl, rfl⟩ := Prod.mk.inj same
    exact .inr ⟨here, before', later, rfl⟩

/-- The text is its two parts with the separator between them, and the first part has no separator. -/
theorem cut_spec (nonempty : sep ≠ []) (h : cut sep s = some (before, behind)) :
    s = before ++ sep ++ behind ∧ ¬ sep <:+: before := by
  induction s generalizing before with
  | nil => cases h
  | cons c cs ih =>
    rcases cut_cons h with ⟨here, rfl, rfl⟩ | ⟨here, before', later, rfl⟩
    · refine ⟨?_, fun inside => nonempty (List.infix_nil.mp inside)⟩
      obtain ⟨rest, whole⟩ := here
      rw [← whole, List.drop_left, List.nil_append]
    · obtain ⟨whole, none⟩ := ih later
      refine ⟨by rw [whole]; rfl, fun inside => ?_⟩
      rcases List.infix_cons_iff.mp inside with start | inside
      · refine here (start.trans ?_)
        rw [whole]
        exact ⟨sep ++ behind, by simp⟩
      · exact none inside

/-- The first piece of a text. -/
def firstPiece (sep s : List α) : List α := ((cut sep s).map Prod.fst).getD s

theorem splitLoop_first (sep : List α) {s : List α} {fuel : Nat} (enough : s.length ≤ fuel) :
    ∃ rest, splitLoop sep fuel s = firstPiece sep s :: rest := by
  cases fuel with
  | zero =>
    obtain rfl := List.length_eq_zero_iff.mp (Nat.le_zero.mp enough)
    exact ⟨[], rfl⟩
  | succ fuel =>
    rw [splitLoop, firstPiece]
    cases cut sep s with
    | none => exact ⟨[], rfl⟩
    | some parts => exact ⟨_, rfl⟩

/-- A text that is cut has the part before the separator and the first piece of what is behind it. -/
theorem split_some (nonempty : sep ≠ []) (h : cut sep s = some (before, behind)) :
    ∃ rest, split sep s = before :: firstPiece sep behind :: rest := by
  have whole := (cut_spec nonempty h).1
  have length : behind.length + 1 ≤ s.length := by
    have pos : 0 < sep.length := List.length_pos_iff.mpr nonempty
    rw [whole, List.length_append, List.length_append]
    omega
  obtain ⟨n, steps⟩ : ∃ n, s.length = n + 1 := ⟨s.length - 1, by omega⟩
  obtain ⟨rest, first⟩ := splitLoop_first sep (show behind.length ≤ n by omega)
  refine ⟨rest, ?_⟩
  rw [split, steps, splitLoop, h, ← first]

theorem firstPiece_none (h : ¬ sep <:+: s) : firstPiece sep s = s := by
  rw [firstPiece, cut_none h]
  rfl

theorem cut_cons_neg {c : α} (here : ¬ sep <+: c :: s) (later : cut sep s = some (before, behind)) :
    cut sep (c :: s) = some (c :: before, behind) := by
  rw [cut, if_neg here, later]
  rfl

theorem cut_self (nonempty : sep ≠ []) (r : List α) : cut sep (sep ++ r) = some ([], r) := by
  obtain ⟨d, ds, rfl⟩ := List.exists_cons_of_ne_nil nonempty
  rw [List.cons_append, cut, ← List.cons_append, if_pos (List.prefix_append _ r), List.drop_left]

/-- Nothing is cut in front of a character that is not in the separator. -/
theorem cut_behind {l r : List α} {c : α} (nonempty : sep ≠ []) (apart : c ∉ sep) (none : ¬ sep <:+: l)
    (later : cut sep r = some (before, behind)) : cut sep (l ++ c :: r) = some (l ++ c :: before, behind) := by
  induction l with
  | nil =>
    refine cut_cons_neg (fun start => nonempty ?_) later
    exact List.prefix_nil.mp (prefix_append_cons (l := []) apart start)
  | cons d l ih =>
    refine cut_cons_neg (fun start => none ?_) (ih fun inside => none ?_)
    · exact (prefix_append_cons (l := d :: l) apart start).isInfix
    · exact inside.trans (List.suffix_cons d l).isInfix

/-- What is behind a text does not change where it is cut. -/
theorem cut_append_right (nonempty : sep ≠ []) (h : cut sep s = some (before, behind)) (r : List α) :
    cut sep (s ++ r) = some (before, behind ++ r) := by
  induction s generalizing before with
  | nil => cases h
  | cons c cs ih =>
    rcases cut_cons h with ⟨here, rfl, rfl⟩ | ⟨here, before', later, rfl⟩
    · obtain ⟨rest, whole⟩ := here
      rw [← whole, List.append_assoc, cut_self nonempty, List.drop_left]
    · refine cut_cons_neg (fun start => here ?_) (ih later)
      refine List.prefix_of_prefix_length_le start (List.prefix_append (c :: cs) r) ?_
      rw [(cut_spec nonempty later).1, List.length_cons, List.length_append, List.length_append]
      omega

/-- The first piece of a text with a separator behind it. -/
theorem mem_firstPiece_append {l r : List α} {c d : α} (nonempty : sep ≠ []) (apart : c ∉ sep) (other : d ≠ c) :
    d ∈ firstPiece sep (l ++ c :: (sep ++ r)) ↔ d ∈ firstPiece sep l := by
  by_cases inside : sep <:+: l
  · obtain ⟨before, behind, here⟩ := cut_some nonempty inside
    rw [firstPiece, cut_append_right nonempty here, firstPiece, here]
    rfl
  · rw [firstPiece, cut_behind nonempty apart inside (cut_self nonempty r), firstPiece_none inside]
    simp [other]

end Split

end Singa.Text
