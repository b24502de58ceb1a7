import Singa.Base.Decimal
import Singa.Communication.Packing

/-!
# `communication/msg.cc`: a message on the wire

`DumpToZmsg` prints the five words of the header into a string frame and puts it
in front of the frames of the message; `ParseFromZmsg` takes it off and scans the
words. `zmsg_pushstrf` and `zmsg_popstr` prepend and remove one frame.
-/

namespace Singa
set_option autoImplicit false

open Decimal

deriving instance DecidableEq for Header

/-- The `int` members of `Msg`. -/
structure FullHeader extends Header where
  type : BitVec 32
  trgtVal : BitVec 32
  trgtVersion : BitVec 32
  deriving DecidableEq

namespace FullHeader

/-- What the constructors of `Msg` leave. -/
def zero : FullHeader := ⟨⟨0, 0⟩, 0, 0, 0⟩

def words (h : FullHeader) : List (BitVec 32) := [h.src, h.dst, h.type, h.trgtVal, h.trgtVersion]

/-- The words that were scanned are stored in order. -/
def store (h : FullHeader) (ws : List (BitVec 32)) : FullHeader where
  src := ws[0]?.getD h.src
  dst := ws[1]?.getD h.dst
  type := ws[2]?.getD h.type
  trgtVal := ws[3]?.getD h.trgtVal
  trgtVersion := ws[4]?.getD h.trgtVersion

end FullHeader

/-- A `zmsg_t`: a list of frames. -/
abbrev ZFrames := List (List UInt8)

namespace ZFrames

/-- The characters of a string in memory. -/
def toBytes (s : List Char) : List UInt8 := s.map fun c => UInt8.ofNat c.toNat

/-- A string in memory ends at its first NUL. -/
def toChars (bytes : List UInt8) : List Char := (bytes.takeWhile (· ≠ 0)).map fun b => Char.ofNat b.toNat

/-- `zmsg_pushstrf`. -/
def pushstrf (zmsg : ZFrames) (s : List Char) : ZFrames := toBytes s :: zmsg

/-- `zmsg_popstr`: null if there is no frame. -/
def popstr : ZFrames → Option (List Char × ZFrames)
  | [] => none
  | frame :: zmsg => some (toChars frame, zmsg)

/-- `zmsg_first`: null if there is no frame. -/
def first (zmsg : ZFrames) : Option Nat := if zmsg = [] then none else some 0

end ZFrames

/-- `Msg` with its header as words and its frames as bytes; `frame` is the position of `frame_`. -/
structure RawMsg where
  header : FullHeader
  msg : Option ZFrames
  frame : Option Nat
  deriving DecidableEq

/-- The `int` that `%d` stores. -/
def toWord (i : Int) : Run (BitVec 32) :=
  if -2 ^ 31 ≤ i ∧ i < 2 ^ 31 then .ok (BitVec.ofInt 32 i) else .error .overflow

namespace RawMsg

/-- `Msg()`. -/
def new : RawMsg := ⟨.zero, some [], none⟩

/-- `Msg::DumpToZmsg`. -/
def dumpToZmsg (m : RawMsg) : Run (ZFrames × RawMsg) :=
  match m.msg with
  | none => .error .nullPointer
  | some zmsg => .ok (zmsg.pushstrf (printAll (m.header.words.map BitVec.toInt)), { m with msg := none })

/-- `Msg::ParseFromZmsg`. -/
def parseFromZmsg (m : RawMsg) (zmsg : ZFrames) : Run RawMsg :=
  match zmsg.popstr with
  | none => .error .nullPointer
  | some (tmp, zmsg) => do
    let words ← (scanAll 5 tmp).mapM toWord
    .ok ⟨m.header.store words, some zmsg, zmsg.first⟩

/-- `Dealer::Send` here and `Dealer::Receive` there. -/
def hop (m : RawMsg) : Run RawMsg := do
  let (zmsg, _) ← m.dumpToZmsg
  new.parseFromZmsg zmsg

def hops : Nat → RawMsg → Run RawMsg
  | 0, m => .ok m
  | k + 1, m => do
    let m ← m.hop
    m.hops k

end RawMsg

/-! ## Strings in frames -/

theorem ZFrames.toChars_toBytes {s : List Char} (ascii : ∀ c ∈ s, 0 < c.toNat ∧ c.toNat < 256) :
    toChars (toBytes s) = s := by
  induction s with
  | nil => rfl
  | cons c s ih =>
    obtain ⟨pos, lt⟩ := ascii c List.mem_cons_self
    have value : (UInt8.ofNat c.toNat).toNat = c.toNat := by
      rw [UInt8.toNat_ofNat']
      omega
    have here : UInt8.ofNat c.toNat ≠ 0 := fun zero => by
      rw [zero] at value
      exact absurd value (by simp; omega)
    have rest := ih fun d mem => ascii d (List.mem_cons_of_mem c mem)
    unfold toChars toBytes at rest ⊢
    rw [List.map_cons, List.takeWhile_cons_of_pos (by simpa using here), List.map_cons, rest, value, Char.ofNat_toNat]

/-- The header is printed in ASCII. -/
theorem printed_ascii {is : List Int} {c : Char} (h : c ∈ printAll is) : 0 < c.toNat ∧ c.toNat < 256 := by
  rcases printAll_ascii h with digit | rfl | rfl
  · simp only [Char.isDigit, ge_iff_le, Bool.and_eq_true, decide_eq_true_eq, UInt32.le_iff_toNat_le] at digit
    have range : 48 ≤ c.toNat ∧ c.toNat ≤ 57 := digit
    omega
  · decide
  · decide

theorem ZFrames.popstr_pushstrf (zmsg : ZFrames) (is : List Int) :
    (zmsg.pushstrf (printAll is)).popstr = some (printAll is, zmsg) := by
  rw [pushstrf, popstr, toChars_toBytes fun c => printed_ascii]

theorem toWord_toInt (w : BitVec 32) : toWord w.toInt = .ok w := by
  have low := BitVec.le_toInt w
  have high := BitVec.toInt_lt (x := w)
  rw [toWord, if_pos ⟨by simpa using low, by simpa using high⟩, BitVec.ofInt_toInt]

/-! ## Hops -/

namespace RawMsg

variable (header : FullHeader) (zmsg : ZFrames) (frame : Option Nat)

/-- The header is scanned back. -/
theorem scanned : (scanAll 5 (printAll (header.words.map BitVec.toInt))).mapM toWord = .ok header.words := by
  have all : scanAll 5 (printAll (header.words.map BitVec.toInt)) = header.words.map BitVec.toInt :=
    scanAll_printAll (header.words.map BitVec.toInt)
  have each : header.words.mapM (toWord ∘ BitVec.toInt) = .ok (header.words.map id) :=
    Run.mapM_pure fun w _ => toWord_toInt w
  rw [all, List.mapM_map, each, List.map_id]

/-- **One hop** restores the header and the frames, with the cursor on the first frame. -/
theorem hop_eq : hop ⟨header, some zmsg, frame⟩ = .ok ⟨header, some zmsg, zmsg.first⟩ := by
  refine Run.do_ok.mpr ⟨_, rfl, ?_⟩
  simp only [parseFromZmsg, ZFrames.popstr_pushstrf]
  exact Run.do_ok.mpr ⟨_, scanned header, rfl⟩

/-- **Any number of hops** restores the header and the frames, with the cursor on the first frame. -/
theorem hops_eq (k : Nat) : hops (k + 1) ⟨header, some zmsg, frame⟩ = .ok ⟨header, some zmsg, zmsg.first⟩ := by
  induction k generalizing frame with
  | zero => exact Run.do_ok.mpr ⟨_, hop_eq header zmsg frame, rfl⟩
  | succ k ih => exact Run.do_ok.mpr ⟨_, hop_eq header zmsg frame, ih _⟩

/-- A header with negative words, and two frames, one of them empty. -/
example : hop ⟨⟨⟨-1#32, 7#32⟩, 3#32, BitVec.intMin 32, -20#32⟩, some [[1, 0, 255], []], some 1⟩ =
    .ok ⟨⟨⟨-1#32, 7#32⟩, 3#32, BitVec.intMin 32, -20#32⟩, some [[1, 0, 255], []], some 0⟩ := by decide +kernel

end RawMsg
end Singa
