import Mathlib.Data.List.TakeWhile
import Mathlib.Tactic

/-!
# Numbers as bytes, files as lists of bytes

Fixed-width little-endian numbers, and a stream over a file as the C++ standard
library has it: a read that finds too few bytes sets `eofbit` and `failbit`, a
seek past the end succeeds, and a write past the end fills the gap with zeros.
-/

namespace Singa
set_option autoImplicit false

namespace Bytes

/-- The `k` lowest bytes of a number, the lowest one first. -/
def ofNat : Nat → Nat → List UInt8
  | 0, _ => []
  | k + 1, n => UInt8.ofNat n :: ofNat k (n / 256)

def toNat : List UInt8 → Nat
  | [] => 0
  | b :: bs => b.toNat + 256 * toNat bs

@[simp] theorem ofNat_length (k n : Nat) : (ofNat k n).length = k := by
  induction k generalizing n with
  | zero => rfl
  | succ k ih => simp [ofNat, ih]

theorem toNat_ofNat {k n : Nat} (lt : n < 256 ^ k) : toNat (ofNat k n) = n := by
  induction k generalizing n with
  | zero =>
    simp only [pow_zero, Nat.lt_one_iff] at lt
    simp [ofNat, toNat, lt]
  | succ k ih =>
    have rest : n / 256 < 256 ^ k := by
      apply Nat.div_lt_of_lt_mul
      rwa [Nat.mul_comm, ← pow_succ]
    simp only [ofNat, toNat, ih rest, UInt8.toNat_ofNat']
    omega

theorem drop_behind (bytes more : List UInt8) (k : Nat) : (bytes ++ more).drop (bytes.length + k) = more.drop k := by
  rw [← List.drop_drop, List.drop_left]

theorem take_behind (bytes more : List UInt8) (k : Nat) :
    (bytes ++ more).take (bytes.length + k) = bytes ++ more.take k := by
  rw [List.take_append, List.take_of_length_le (by omega), Nat.add_sub_cancel_left]

/-- A file after bytes were written at a position; nothing changes where nothing is written. -/
def writeAt (file : List UInt8) (pos : Nat) (data : List UInt8) : List UInt8 :=
  if data = [] then file
  else (file ++ List.replicate (pos - file.length) 0).take pos ++ data ++ file.drop (pos + data.length)

theorem writeAt_nil (file : List UInt8) (pos : Nat) : writeAt file pos [] = file := if_pos rfl

/-- Writing at the end appends. -/
theorem writeAt_end (file data : List UInt8) : writeAt file file.length data = file ++ data := by
  rw [writeAt]
  split
  · simp [*]
  · simp

/-- Writing before the end overwrites what is there. -/
theorem writeAt_append (before tail data : List UInt8) :
    writeAt (before ++ tail) before.length data = before ++ data ++ tail.drop data.length := by
  rw [writeAt]
  split
  · simp [*]
  · simp [List.drop_append]

/-- Two writes in a row are one. -/
theorem writeAt_writeAt (file : List UInt8) (pos : Nat) (first second : List UInt8) :
    writeAt (writeAt file pos first) (pos + first.length) second = writeAt file pos (first ++ second) := by
  by_cases noFirst : first = []
  · simp [noFirst, writeAt_nil]
  by_cases noSecond : second = []
  · simp [noSecond, writeAt_nil]
  have head : ((file ++ List.replicate (pos - file.length) (0 : UInt8)).take pos).length = pos := by
    rw [List.length_take, List.length_append, List.length_replicate]
    omega
  rw [writeAt, writeAt, writeAt, if_neg noFirst, if_neg noSecond, if_neg (by simp [noFirst])]
  generalize (file ++ List.replicate (pos - file.length) (0 : UInt8)).take pos = start at head
  rw [List.append_assoc start first, ← List.append_assoc start first, List.append_assoc (start ++ first)]
  have start_length : (start ++ first).length = pos + first.length := by rw [List.length_append, head]
  rw [← start_length, List.take_left]
  have past : (start ++ first).drop ((start ++ first).length + second.length) = [] :=
    List.drop_eq_nil_of_le (by omega)
  have beyond : (start ++ first).length + ((start ++ first).length + second.length - (start ++ first).length) =
      pos + (first ++ second).length := by
    rw [start_length, List.length_append]
    omega
  rw [List.drop_append, past, List.nil_append, List.drop_drop, beyond, List.append_assoc start first second]

end Bytes

/-- `std::fstream`: the file, the position, `eofbit` and `failbit`. -/
structure Stream where
  bytes : List UInt8
  pos : Nat
  eof : Bool
  fail : Bool

namespace Stream

/-- A stream that was just opened at `pos`. -/
def opened (bytes : List UInt8) (pos : Nat) : Stream := ⟨bytes, pos, false, false⟩

def good (s : Stream) : Bool := !s.eof && !s.fail

/-- The bytes that are still to be read. -/
def rest (s : Stream) : List UInt8 := s.bytes.drop s.pos

/-- `read(buf, n)`: the bytes that were there. -/
def read (s : Stream) (n : Nat) : List UInt8 × Stream :=
  if s.good then
    let got := s.rest.take n
    let short := decide (got.length < n)
    (got, { s with pos := s.pos + got.length, eof := short, fail := short })
  else ([], { s with fail := true })

/-- `seekg(n, std::ios_base::cur)`. -/
def skip (s : Stream) (n : Nat) : Stream :=
  if s.fail then s else { s with pos := s.pos + n, eof := false }

/-- `write(data, data.size())`. -/
def write (s : Stream) (data : List UInt8) : Stream :=
  if s.good then { s with bytes := Bytes.writeAt s.bytes s.pos data, pos := s.pos + data.length }
  else { s with fail := true }

/-- What a read takes is gone, and a read that takes too little was the last one. -/
theorem read_spec {s : Stream} (good : s.good) (n : Nat) : (s.read n).1 = s.rest.take n ∧
    (s.read n).2.bytes = s.bytes ∧ (s.read n).2.rest = s.rest.drop n ∧
    ((s.read n).2.good = true ∨ (s.read n).2.eof = true ∧ (s.read n).2.rest = []) := by
  by_cases le : n ≤ s.rest.length
  · have length : (s.rest.take n).length = n := List.length_take_of_le le
    have run : s.read n = (s.rest.take n, { s with pos := s.pos + n, eof := false, fail := false }) := by
      simp [read, good, length]
    rw [run]
    exact ⟨rfl, rfl, by simp [rest, List.drop_drop], .inl rfl⟩
  · have all : s.rest.take n = s.rest := List.take_of_length_le (by omega)
    have none : s.rest.drop n = [] := List.drop_eq_nil_of_le (by omega)
    have run : s.read n = (s.rest, { s with pos := s.pos + s.rest.length, eof := true, fail := true }) := by
      simp [read, good, all]
      omega
    have ended : s.bytes.drop (s.pos + s.rest.length) = [] := by
      apply List.drop_eq_nil_of_le
      rw [rest, List.length_drop]
      omega
    rw [run, all, none]
    exact ⟨rfl, rfl, ended, .inr ⟨rfl, ended⟩⟩

theorem read_enough {s : Stream} {n : Nat} (good : s.good) (le : n ≤ s.rest.length) :
    s.read n = (s.rest.take n, { s with pos := s.pos + n }) := by
  have length : (s.rest.take n).length = n := List.length_take_of_le le
  have bits : s.eof = false ∧ s.fail = false := by simpa [Stream.good] using good
  cases s
  simp_all [read]

theorem read_short {s : Stream} {n : Nat} (good : s.good) (lt : s.rest.length < n) :
    s.read n = (s.rest, { s with pos := s.pos + s.rest.length, eof := true, fail := true }) := by
  have all : s.rest.take n = s.rest := List.take_of_length_le lt.le
  simp [read, good, all, lt]

theorem write_of_good {s : Stream} (good : s.good) (data : List UInt8) :
    s.write data = { s with bytes := Bytes.writeAt s.bytes s.pos data, pos := s.pos + data.length } :=
  if_pos good

end Stream
end Singa
