import Mathlib.Tactic
import Singa.Base.Decimal

/-!
# `utils/common.cc`: metrics as text

A metric is a count and a sum for each name; its log string shows the averages.
`std::to_string` prints a `float` with six decimals; the value of a `float` is
that of its sign, mantissa and exponent. Division of floats is a parameter.
-/

namespace Singa
set_option autoImplicit false

/-- The value of a `float`: `mantissa * 2 ^ exponent` if it is finite. -/
inductive FloatValue where
  | nan (negative : Bool)
  | inf (negative : Bool)
  | finite (negative : Bool) (mantissa : Nat) (exponent : Int)
  deriving DecidableEq, Repr

namespace FloatValue

/-- `n / d`, rounded to nearest, ties to even. -/
def roundHalfEven (n d : Nat) : Nat :=
  if 2 * (n % d) < d ∨ (2 * (n % d) = d ∧ n / d % 2 = 0) then n / d else n / d + 1

/-- The number of millionths in `mantissa * 2 ^ exponent`. -/
def millionths (mantissa : Nat) (exponent : Int) : Nat :=
  roundHalfEven (mantissa * 10 ^ 6 * 2 ^ exponent.toNat) (2 ^ (-exponent).toNat)

/-- The sign in front of a printed `float`. -/
def signChars (negative : Bool) : List Char := if negative then ['-'] else []

/-- `std::to_string(float)`, that is `%f`. -/
def toChars : FloatValue → List Char
  | nan negative => signChars negative ++ ['n', 'a', 'n']
  | inf negative => signChars negative ++ ['i', 'n', 'f']
  | finite negative mantissa exponent =>
    let n := millionths mantissa exponent
    let decimals := Nat.toDigits 10 (n % 10 ^ 6)
    signChars negative ++ Nat.toDigits 10 (n / 10 ^ 6) ++ '.' :: List.replicate (6 - decimals.length) '0' ++ decimals

end FloatValue

/-- A character of a printed number. -/
def IsNumeral (c : Char) : Prop := c.isDigit = true ∨ c ∈ ['-', '.', 'n', 'a', 'i', 'f']

/-- Digits are characters of numbers. -/
theorem toDigits_numeral {n : Nat} {c : Char} (h : c ∈ Nat.toDigits 10 n) : IsNumeral c := .inl (Decimal.toDigits_isDigit h)

/-- So are those of a printed `int`. -/
theorem print_numeral {i : Int} {c : Char} (h : c ∈ Decimal.print i) : IsNumeral c := by
  refine (Decimal.print_ascii h).imp_right ?_
  rintro rfl
  exact List.mem_cons_self

theorem signChars_numeral {negative : Bool} {c : Char} (h : c ∈ FloatValue.signChars negative) : IsNumeral c := by
  cases negative with
  | false => cases h
  | true => exact .inr (by rw [List.mem_singleton.mp h]; decide)

/-- And those of a printed `float`, `nan` and `inf` included. -/
theorem FloatValue.toChars_numeral {x : FloatValue} {c : Char} (h : c ∈ x.toChars) : IsNumeral c := by
  cases x with
  | nan negative | inf negative =>
    rcases List.mem_append.mp h with h | h
    · exact signChars_numeral h
    · simp only [List.mem_cons, List.not_mem_nil, or_false] at h
      rcases h with rfl | rfl | rfl
      all_goals exact .inr (by decide)
  | finite negative mantissa exponent =>
    simp only [toChars, List.append_assoc, List.mem_append, List.mem_cons, List.mem_replicate] at h
    rcases h with h | h | (rfl | ⟨-, rfl⟩) | h
    · exact signChars_numeral h
    · exact toDigits_numeral h
    · exact .inr (by decide)
    · exact .inl (by decide)
    · exact toDigits_numeral h

/-- An element of `entry_`. -/
structure MetricEntry (α : Type) where
  name : List Char
  count : Int
  sum : α

/-- `Metric`: the elements of `entry_` in the order in which they are iterated. -/
structure Metric (α : Type) where
  entries : List (MetricEntry α)
  nodup : (entries.map MetricEntry.name).Nodup

section

variable {α : Type} [Div α] [IntCast α] (value : α → FloatValue)

/-- `std::to_string(e.second.second / e.second.first)`. -/
def MetricEntry.average (e : MetricEntry α) : List Char := (value (e.sum / (e.count : α))).toChars

/-- One pass of the loop of `ToLogString`: `ret` and `k`. -/
def Metric.logPass (size : Nat) (s : List Char × Nat) (e : MetricEntry α) : List Char × Nat :=
  let ret := s.1 ++ (e.name ++ [' ', ':', ' ']) ++ e.average value
  if s.2 + 1 < size then (ret ++ [',', ' '], s.2 + 1) else (ret, s.2 + 1)

/-- `Metric::ToLogString`. -/
def Metric.toLogString (m : Metric α) : List Char := (m.entries.foldl (logPass value m.entries.length) ([], 0)).1

/-- An entry in the log. -/
def MetricEntry.shown (e : MetricEntry α) : List Char := e.name ++ ' ' :: ':' :: ' ' :: e.average value

/-- Entries with `", "` between them. -/
def shownAll : List (MetricEntry α) → List Char
  | [] => []
  | [e] => e.shown value
  | e :: rest => e.shown value ++ ',' :: ' ' :: shownAll rest

/-- The separator stands between two entries. -/
theorem shownAll_cons_cons (e e' : MetricEntry α) (rest : List (MetricEntry α)) :
    shownAll value (e :: e' :: rest) = e.shown value ++ ',' :: ' ' :: shownAll value (e' :: rest) := rfl

/-- The loop of `ToLogString` shows the entries in order, with a separator after all but the last. -/
theorem Metric.toLogString_eq (m : Metric α) : m.toLogString value = shownAll value m.entries := by
  suffices all : ∀ (rest : List (MetricEntry α)) (size k : Nat) (ret : List Char), size = k + rest.length →
      (rest.foldl (logPass value size) (ret, k)).1 = ret ++ shownAll value rest from
    all m.entries m.entries.length 0 [] (by simp)
  intro rest
  induction rest with
  | nil =>
    intro size k ret _
    exact (List.append_nil ret).symm
  | cons e rest ih =>
    intro size k ret total
    have here : ret ++ (e.name ++ [' ', ':', ' ']) ++ e.average value = ret ++ e.shown value := by
      simp [MetricEntry.shown]
    rw [List.length_cons] at total
    rw [List.foldl_cons, logPass]
    dsimp only
    rw [here]
    cases rest with
    | nil =>
      rw [if_neg (by simp only [List.length_nil] at total; omega)]
      rfl
    | cons e' rest =>
      rw [if_pos (by simp only [List.length_cons] at total; omega), ih size (k + 1) _ (by omega), shownAll_cons_cons]
      simp

end

end Singa
