import Singa.Base.Bytes
import Singa.Utils.Abort

/-!
# `utils/data_shard.cc`: files of tuples

A shard file is a sequence of tuples, each one a key and a value behind their
lengths, eight bytes each. Tuples are written through a buffer that is emptied
into the file when the next tuple does not fit, and read through a buffer that
is refilled when the next field is not complete. Positions in the buffer are of
type `int`; a sum that leaves its range is undefined, and the model stops there.
-/

namespace Singa
set_option autoImplicit false

/-- The `int` that a `size_t` is converted to. -/
def toInt (n : Nat) : Int := (n : Int).bmod (2 ^ 32)

/-- The sum of two `int`s. -/
def addInt (a b : Int) : Run Int :=
  if -2 ^ 31 ≤ a + b ∧ a + b < 2 ^ 31 then .ok (a + b) else .error .overflow

/-- The `n` bytes at the position `pos` of a buffer. -/
def window (buf : List UInt8) (pos n : Int) : Run (List UInt8) :=
  if n ≤ 0 then .ok []
  else if 0 ≤ pos ∧ pos + n ≤ buf.length then .ok ((buf.drop pos.toNat).take n.toNat)
  else .error .range

/-- A buffer after bytes were copied to the position `pos`. -/
def blit (buf : List UInt8) (pos : Int) (bytes : List UInt8) : Run (List UInt8) :=
  if 0 ≤ pos ∧ pos + bytes.length ≤ buf.length then
    .ok (buf.take pos.toNat ++ bytes ++ buf.drop (pos.toNat + bytes.length))
  else .error .range

structure Tuple where
  key : List UInt8
  val : List UInt8
  deriving DecidableEq

namespace DataShard

inductive Mode where
  | kRead | kCreate | kAppend
  deriving DecidableEq, Repr

end DataShard

structure DataShard where
  mode : DataShard.Mode
  fdat : Stream
  keys : Finset (List UInt8)
  buf : List UInt8
  offset : Int
  bufsize : Int
  capacity : Int

namespace DataShard

/-- `DataShard(folder, mode, capacity)` once the stream is open. -/
def opened (mode : Mode) (fdat : Stream) (keys : Finset (List UInt8)) (capacity : Nat) : DataShard where
  mode := mode
  fdat := fdat
  keys := keys
  buf := List.replicate capacity 0
  offset := 0
  bufsize := 0
  capacity := capacity

/-- `DataShard(folder, kCreate, capacity)`. -/
def create (capacity : Nat) : DataShard := opened .kCreate (Stream.opened [] 0) ∅ capacity

/-- `DataShard(folder, kRead, capacity)`. -/
def openRead (file : Option (List UInt8)) (capacity : Nat) : Run DataShard :=
  match file with
  | none => .error .shardFile
  | some bytes => .ok (opened .kRead (Stream.opened bytes 0) ∅ capacity)

/-! ## Writing -/

/-- One field behind the others in the buffer. -/
def putField (s : DataShard) (bytes : List UInt8) : Run DataShard := do
  let buf ← blit s.buf s.bufsize bytes
  .ok { s with buf, bufsize := s.bufsize + bytes.length }

/-- `fdat_.write(buf_, bufsize_)`. -/
def writeBuffer (s : DataShard) : Run DataShard := do
  let out ← window s.buf 0 s.bufsize
  .ok { s with fdat := s.fdat.write out, bufsize := 0 }

/-- The buffer is written to the file if it has no room for `size` more bytes. -/
def makeRoom (s : DataShard) (size : Int) : Run DataShard := do
  let total ← addInt s.bufsize size
  if s.capacity < total then
    let s ← s.writeBuffer
    if size ≤ s.capacity then .ok s else .error .tupleSize
  else .ok s

/-- `DataShard::Insert`. -/
def insert (s : DataShard) (t : Tuple) : Run (DataShard × Bool) := do
  if t.key ∈ s.keys ∨ t.val.length = 0 then .ok (s, false)
  else
    let s ← s.makeRoom (toInt (t.key.length + t.val.length + 2 * 8))
    let s ← s.putField (Bytes.ofNat 8 t.key.length)
    let s ← s.putField t.key
    let s ← s.putField (Bytes.ofNat 8 t.val.length)
    let s ← s.putField t.val
    .ok (s, true)

/-- `DataShard::Flush`. -/
def flush (s : DataShard) : Run DataShard := s.writeBuffer

/-! ## Reading -/

/-- `DataShard::PrepareNextField`: the unread bytes move to the front, and the file fills the rest. -/
def prepareNextField (s : DataShard) (size : Int) : Run (DataShard × Bool) := do
  let last ← addInt s.offset size
  if s.bufsize < last then
    let unread ← window s.buf s.offset (s.bufsize - s.offset)
    let buf ← blit s.buf 0 unread
    let s := { s with buf, bufsize := s.bufsize - s.offset, offset := 0 }
    if s.fdat.eof then .ok (s, false)
    else
      let (got, fdat) := s.fdat.read (s.capacity - s.bufsize).toNat
      let buf ← blit s.buf s.bufsize got
      let s := { s with fdat, buf, bufsize := s.bufsize + got.length }
      .ok (s, decide (size ≤ s.bufsize))
  else .ok (s, true)

/-- The next field of `size` bytes, if it is there. -/
def nextField (s : DataShard) (size : Int) : Run (DataShard × Option (List UInt8)) := do
  let (s, there) ← s.prepareNextField size
  if there then
    let bytes ← window s.buf s.offset size
    .ok ({ s with offset := s.offset + size }, some bytes)
  else .ok (s, none)

/-- `DataShard::Next`; the length of a value that is not there is 0. -/
def next (s : DataShard) : Run (DataShard × Option Tuple) := do
  match ← s.nextField 8 with
  | (s, none) => .ok (s, none)
  | (s, some keylen) =>
    match ← s.nextField (toInt (Bytes.toNat keylen)) with
    | (s, none) => .ok (s, none)
    | (s, some key) =>
      match ← s.nextField 8 with
      | (s, none) => .ok (s, none)
      | (s, some vallen) =>
        match ← s.nextField (toInt (Bytes.toNat vallen)) with
        | (s, none) => .ok (s, none)
        | (s, some val) => .ok (s, if toInt (Bytes.toNat vallen) = 0 then none else some ⟨key, val⟩)

/-- `DataShard::SeekToFirst`. -/
def seekToFirst (s : DataShard) : Run DataShard :=
  if s.mode = .kRead then
    .ok { s with bufsize := 0, offset := 0, fdat := Stream.opened s.fdat.bytes 0 }
  else .error .shardMode

/-! ## Appending -/

/-- One pass of the loop of `PrepareForAppend`: the stream behind the tuple and its key, or a break. -/
def prepareTuple (fin : Stream) : Run (Option (Stream × List UInt8)) :=
  let (bytes, fin) := fin.read 8
  if fin.good then
    let keylen := Bytes.toNat bytes
    let (buf, fin) := fin.read keylen
    -- the key has to leave room for its terminator
    if 256 ≤ keylen then .error .range
    else if fin.good then
      let (bytes, fin) := fin.read 8
      if fin.good then
        let fin := fin.skip (Bytes.toNat bytes)
        if fin.good then .ok (some (fin, buf.takeWhile (· ≠ 0))) else .ok none
      else .ok none
    else .ok none
  else .ok none

/-- The loop of `PrepareForAppend`. -/
def prepareTuples : Nat → Stream → Finset (List UInt8) → Int → Run (Finset (List UInt8) × Int)
  | 0, _, _, _ => .error .fuel
  | fuel + 1, fin, keys, lastTupleOffset => do
    match ← prepareTuple fin with
    | none => .ok (keys, lastTupleOffset)
    | some (fin, key) => prepareTuples fuel fin (Insert.insert key keys) (toInt fin.pos)

/-- `DataShard::PrepareForAppend`: `keys_`, and the end of the last tuple. -/
def prepareForAppend (file : Option (List UInt8)) : Run (Finset (List UInt8) × Int) :=
  match file with
  | none => .ok (∅, 0)
  | some bytes => prepareTuples (bytes.length + 1) (Stream.opened bytes 0) ∅ 0

/-- `DataShard(folder, kAppend, capacity)`; a seek to a negative position fails. -/
def openAppend (file : Option (List UInt8)) (capacity : Nat) : Run DataShard := do
  let (keys, lastTuple) ← prepareForAppend file
  match file with
  | none => .error .shardFile
  | some bytes =>
    .ok (opened .kAppend { Stream.opened bytes lastTuple.toNat with fail := decide (lastTuple < 0) } keys capacity)

end DataShard
end Singa
