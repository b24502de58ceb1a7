import Singa.Base.Memory
import Singa.Utils.Abort

/-!
# `communication/msg.h`: messages

A message has a header and a list of frames with a cursor. A frame made by
`AddFormatFrame` is the list of its tagged arguments, one made by `AddFrame` the
floats it was given; `size` is the number of bytes of either. The count of bytes
given to `AddFrame` is an `int`: `addFloats` cuts it, for the values that are put
and got; update and sync requests are modelled for slices below 2²⁹ floats, which
lose nothing (`addFloats_small`). The header words `src`, `dst` and `trgt_val` are
kept decoded (`AddrGrp`, `AddrID`, `AddrType`, `ParamID`, `SliceID`); which ids
survive packing is said in `Communication/Packing.lean`. `hop` is what a message
goes through on the wire: the frames stay, the cursor is back at the first one.
-/

namespace Singa
set_option autoImplicit false

open Memory

inductive MsgType where
  | kGet | kPut | kSync | kUpdate | kSyncRequest | kSyncResponse | kStop | kData | kRGet | kRUpdate | kConnect
  | kMetric | kSyncReminder
  deriving DecidableEq, Repr

inductive EntityType where
  | kWorkerParam | kWorkerLayer | kServer | kStub | kRuntime
  deriving DecidableEq, Repr

/-- `Addr(grp, id_or_proc, type)`. -/
structure Addr where
  grp : Int
  idOrProc : Int
  type : EntityType
  deriving DecidableEq, Repr

variable {α : Type}

/-- An argument of a format frame: `i`, `f` or `p`. -/
inductive Arg (α : Type) where
  | int (i : Int)
  | float (x : α)
  | ptr (p : Option Ptr)

/-- Tag and value. -/
def Arg.size : Arg α → Nat
  | .int _ | .float _ => 5
  | .ptr _ => 9

inductive Frame (α : Type) where
  | format (args : List (Arg α))
  | data (values : List α)

/-- `FrameSize`, with eight bytes of marker in a format frame; what is in a frame was counted by an `int`. -/
def Frame.size : Frame α → Nat
  | .format args => 8 + (args.map Arg.size).sum
  | .data values => 4 * values.length

/-- A number of bytes as an `int`. -/
def intBytes (n : Nat) : Int := (BitVec.ofNat 32 n).toInt

/-- The floats in a frame of `int nBytes = 4 * values.length` bytes. A negative `nBytes` becomes a `size_t` that
cannot be allocated. -/
def frameFloats (values : List α) : Run (List α) :=
  if intBytes (4 * values.length) < 0 then .error .frameBytes
  else .ok (values.take ((intBytes (4 * values.length)).toNat / 4))

theorem intBytes_eq (n : Nat) : intBytes n =
      if n % 2 ^ 32 < 2 ^ 31 then ((n % 2 ^ 32 : Nat) : Int)
      else ((n % 2 ^ 32 : Nat) : Int) - 2 ^ 32 := by
  rw [intBytes, BitVec.toInt_eq_toNat_cond, BitVec.toNat_ofNat]
  split <;> split <;> omega

/-- A frame has all floats exactly when their bytes are an `int`. -/
theorem frameFloats_eq_iff (values : List α) : frameFloats values = .ok values ↔ values.length < 2 ^ 29 := by
  have bytes := intBytes_eq (4 * values.length)
  rw [frameFloats]
  split at bytes
  · have count : (intBytes (4 * values.length)).toNat / 4 = 4 * values.length % 2 ^ 32 / 4 := by omega
    rw [if_neg (by omega), Except.ok.injEq, List.take_eq_self_iff, count]
    omega
  · rw [if_pos (by omega)]
    simp only [reduceCtorEq, false_iff]
    omega

structure Msg (α : Type) where
  src : Addr := ⟨0, 0, .kWorkerParam⟩
  dst : Addr := ⟨0, 0, .kWorkerParam⟩
  type : MsgType := .kGet
  paramId : Int := 0
  sliceId : Int := 0
  trgtVersion : Int := 0
  frames : List (Frame α) := []
  /-- Position of `frame_`; past the end it is null. -/
  cursor : Nat := 0

namespace Msg

def swapAddr (m : Msg α) : Msg α := { m with src := m.dst, dst := m.src }

def setTrgt (m : Msg α) (paramId sliceId version : Int) : Msg α :=
  { m with paramId, sliceId, trgtVersion := version }

def addFrame (m : Msg α) (frame : Frame α) : Msg α := { m with frames := m.frames ++ [frame] }

/-- `AddFrame(values, nBytes)`. -/
def addFloats (m : Msg α) (values : List α) : Run (Msg α) := do
  .ok (m.addFrame (.data (← frameFloats values)))

def firstFrame (m : Msg α) : Msg α := { m with cursor := 0 }

def lastFrame (m : Msg α) : Msg α := { m with cursor := m.frames.length - 1 }

/-- `NextFrame`: the moved message, and whether there was a next frame. -/
def nextFrame (m : Msg α) : Msg α × Bool :=
  ({ m with cursor := m.cursor + 1 }, decide (m.cursor + 1 < m.frames.length))

def hop (m : Msg α) : Msg α := m.firstFrame

def frame (m : Msg α) : Run (Frame α) :=
  match m.frames[m.cursor]? with
  | some frame => .ok frame
  | none => .error .range

/-- The first `n` floats of `FrameData()`. -/
def floats (m : Msg α) (n : Nat) : Run (List α) := do
  match ← m.frame with
  | .data values => if n ≤ values.length then .ok (values.take n) else .error .range
  | .format _ => .error .range

/-- The arguments that `ParseFormatFrame` finds; a shorter format reads a prefix of them. -/
def args (m : Msg α) : Run (List (Arg α)) := do
  match ← m.frame with
  | .format args => .ok args
  | .data _ => .error .format

/-- `ParseFormatFrame("i", ..)`. -/
def parseI (m : Msg α) : Run Int := do
  match ← m.args with
  | .int i :: _ => .ok i
  | _ => .error .format

/-- `ParseFormatFrame("p", ..)`. -/
def parseP (m : Msg α) : Run (Option Ptr) := do
  match ← m.args with
  | .ptr p :: _ => .ok p
  | _ => .error .format

/-- `ParseFormatFrame("ip", ..)`. -/
def parseIP (m : Msg α) : Run (Int × Option Ptr) := do
  match ← m.args with
  | .int i :: .ptr p :: _ => .ok (i, p)
  | _ => .error .format

/-- `ParseFormatFrame("iffp", ..)`. -/
def parseIFFP (m : Msg α) : Run (Int × α × α × Option Ptr) := do
  match ← m.args with
  | .int i :: .float x :: .float y :: .ptr p :: _ => .ok (i, x, y, p)
  | _ => .error .format

/-- `CHECK_EQ(msg->FrameSize(), n * sizeof(float))` followed by a read of the frame. -/
def checkedFloats (m : Msg α) (n : Nat) : Run (List α) := do
  let frame ← m.frame
  if frame.size = 4 * n then m.floats n else .error .frameSize

theorem addFloats_small (m : Msg α) {values : List α} (small : values.length < 2 ^ 29) :
    m.addFloats values = .ok (m.addFrame (.data values)) := by
  rw [addFloats, (frameFloats_eq_iff values).mpr small]
  rfl

end Msg

/-- The int that a C++ `bool` argument becomes. -/
def flag (b : Bool) : Int := if b then 1 else 0

end Singa
