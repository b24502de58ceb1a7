import Mathlib.Data.List.TakeWhile
import Mathlib.Tactic

/-!
# Decimal numbers in text

A number is scanned the way the C library does it for `%d` and `atoi`: white
space is skipped, a sign may follow, and then come the digits. What was printed
is scanned back if no digit follows it. Numbers are unbounded: what becomes of
one that is no `int` is for the caller to say.
-/

namespace Singa.Decimal
set_option autoImplicit false

/-- `isspace`. -/
def isSpace (c : Char) : Bool := c.toNat = 32 || (9 ≤ c.toNat && c.toNat ≤ 13)

/-- The digits at the front of a text, and what is behind them. -/
def scanNat (s : List Char) : Option (Nat × List Char) :=
  let digits := s.takeWhile Char.isDigit
  if digits = [] then none else some (Nat.ofDigitChars 10 digits 0, s.dropWhile Char.isDigit)

/-- Is there a minus, and what is behind the sign? -/
def scanSign : List Char → Bool × List Char
  | '-' :: s => (true, s)
  | '+' :: s => (false, s)
  | s => (false, s)

/-- A number with a sign, behind white space. -/
def scanInt (s : List Char) : Option (Int × List Char) :=
  let (negative, s) := scanSign (s.dropWhile isSpace)
  (scanNat s).map fun (n, rest) => (if negative then -(n : Int) else n, rest)

/-- The number that `atoi` finds at the front of a text. -/
def atoi (s : List Char) : Int :=
  match scanInt s with
  | none => 0
  | some (i, _) => i

/-- A number as a stream or `std::to_string` prints it. -/
def print (i : Int) : List Char := if i < 0 then '-' :: Nat.toDigits 10 i.natAbs else Nat.toDigits 10 i.natAbs

/-- Numbers with a blank between them. -/
def printAll : List Int → List Char
  | [] => []
  | [i] => print i
  | i :: is => print i ++ ' ' :: printAll is

/-- At most `k` numbers, up to where there is none. -/
def scanAll : Nat → List Char → List Int
  | 0, _ => []
  | k + 1, s =>
    match scanInt s with
    | none => []
    | some (i, rest) => i :: scanAll k rest

/-- No digit comes first. -/
def Apart (rest : List Char) : Prop := ∀ c ∈ rest.head?, c.isDigit = false

variable {rest : List Char}

theorem isSpace_of_isDigit {c : Char} (digit : c.isDigit = true) : isSpace c = false := by
  have range : 48 ≤ c.toNat ∧ c.toNat ≤ 57 := by
    simp only [Char.isDigit, ge_iff_le, Bool.and_eq_true, decide_eq_true_eq, UInt32.le_iff_toNat_le] at digit
    exact digit
  simp only [isSpace, Bool.or_eq_false_iff, decide_eq_false_iff_not, Bool.and_eq_false_iff]
  omega

theorem toDigits_isDigit {n : Nat} {c : Char} (h : c ∈ Nat.toDigits 10 n) : c.isDigit = true :=
  Nat.isDigit_of_mem_toDigits (by decide) le_rfl h

theorem scanNat_toDigits (n : Nat) (apart : Apart rest) : scanNat (Nat.toDigits 10 n ++ rest) = some (n, rest) := by
  have digits : ∀ c ∈ Nat.toDigits 10 n, c.isDigit = true := fun c => toDigits_isDigit
  have ends : rest.takeWhile Char.isDigit = [] ∧ rest.dropWhile Char.isDigit = rest := by
    cases rest with
    | nil => exact ⟨rfl, rfl⟩
    | cons c rest =>
      have here := apart c rfl
      simp [here]
  unfold scanNat
  rw [List.takeWhile_append_of_pos digits, List.dropWhile_append_of_pos digits, ends.1, ends.2, List.append_nil]
  simp [Nat.toDigits_ne_nil, Nat.ofDigitChars_ten_toDigits]

/-- A text that begins with a digit has no white space and no sign to skip. -/
theorem scanInt_digit {s : List Char} {c : Char} (digit : c.isDigit = true) :
    scanInt (c :: s) = (scanNat (c :: s)).map fun (n, rest) => ((n : Int), rest) := by
  have sign : scanSign (c :: s) = (false, c :: s) := by
    unfold scanSign
    split
    · rename_i same
      cases same
      exact absurd digit (by decide)
    · rename_i same
      cases same
      exact absurd digit (by decide)
    · rfl
  rw [scanInt, List.dropWhile_cons_of_neg (by simp [isSpace_of_isDigit digit]), sign]
  simp

theorem scanInt_space (s : List Char) : scanInt (' ' :: s) = scanInt s := by
  unfold scanInt
  rw [List.dropWhile_cons_of_pos (by decide)]

/-- **What was printed is scanned back.** -/
theorem scanInt_print (i : Int) (rest : List Char) (apart : Apart rest) : scanInt (print i ++ rest) = some (i, rest) := by
  unfold print
  by_cases negative : i < 0
  · rw [if_pos negative, List.cons_append, scanInt, List.dropWhile_cons_of_neg (by decide), scanSign]
    simp only [scanNat_toDigits _ apart, Option.map_some, if_true, Option.some.injEq, Prod.mk.injEq, and_true]
    omega
  · rw [if_neg negative]
    obtain ⟨c, cs, digits⟩ := List.exists_cons_of_ne_nil (Nat.toDigits_ne_nil (n := i.natAbs) (b := 10))
    have here : c.isDigit = true := toDigits_isDigit (n := i.natAbs) (by rw [digits]; exact List.mem_cons_self)
    have whole := scanNat_toDigits i.natAbs apart
    rw [digits, List.cons_append] at whole ⊢
    rw [scanInt_digit here, whole]
    simp only [Option.map_some, Option.some.injEq, Prod.mk.injEq, and_true]
    omega

theorem print_injective : Function.Injective print := by
  intro i j same
  have first := scanInt_print i [] (by simp [Apart])
  rw [same, scanInt_print j [] (by simp [Apart])] at first
  exact (Prod.mk.inj (Option.some.inj first)).1.symm

theorem atoi_print (i : Int) (rest : List Char) (apart : Apart rest) : atoi (print i ++ rest) = i := by
  rw [atoi, scanInt_print i rest apart]

theorem scanAll_space (k : Nat) (s : List Char) : scanAll k (' ' :: s) = scanAll k s := by
  cases k with
  | zero => rfl
  | succ k => rw [scanAll, scanInt_space, scanAll]

/-- All numbers are scanned back. -/
theorem scanAll_printAll (is : List Int) : scanAll is.length (printAll is) = is := by
  induction is with
  | nil => rfl
  | cons i is ih =>
    cases is with
    | nil =>
      have whole := scanInt_print i [] (by simp [Apart])
      rw [List.append_nil] at whole
      rw [printAll, List.length_singleton, scanAll, whole]
      rfl
    | cons j js =>
      have whole := scanInt_print i (' ' :: printAll (j :: js)) (by simp [Apart])
      rw [printAll, List.length_cons, scanAll, whole]
      · simp only
        rw [scanAll_space, ih]
      · simp

theorem print_ascii {i : Int} {c : Char} (h : c ∈ print i) : c.isDigit = true ∨ c = '-' := by
  unfold print at h
  split at h
  · rcases List.mem_cons.mp h with rfl | h
    · exact .inr rfl
    · exact .inl (toDigits_isDigit h)
  · exact .inl (toDigits_isDigit h)

theorem printAll_ascii {is : List Int} {c : Char} (h : c ∈ printAll is) : c.isDigit = true ∨ c = '-' ∨ c = ' ' := by
  induction is with
  | nil => cases h
  | cons i is ih =>
    cases is with
    | nil => exact (print_ascii h).imp_right .inl
    | cons j js =>
      rcases List.mem_append.mp h with h | h
      · exact (print_ascii h).imp_right .inl
      · rcases List.mem_cons.mp h with rfl | h
        · exact .inr (.inr rfl)
        · exact ih h

end Singa.Decimal
