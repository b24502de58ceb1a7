import Singa.Base.Bytes
import Singa.Communication.Msg

/-!
# `communication/msg.cc`: the bytes of a format frame

`AddFormatFrame` and `ParseFormatFrame` walk over the same format with a cursor
each. Fields of the letters `i`, `f`, `s` and `p` have their letter in front, the
unsigned ones of `1`, `2` and `4` bytes do not. What a field is read into is
described by the bytes that are written there.
-/

namespace Singa
set_option autoImplicit false

/-- A C string. -/
structure CString where
  chars : List UInt8
  nulFree : 0 ∉ chars

/-- An argument of `AddFormatFrame`; a float is given by its bits. -/
inductive FormatArg where
  | int (x : BitVec 32)
  | float (x : BitVec 32)
  | uint8 (x : BitVec 8)
  | uint16 (x : BitVec 16)
  | uint32 (x : BitVec 32)
  | str (x : CString)
  | ptr (x : BitVec 64)

namespace FormatFrame

/-- `FMARKER`. -/
def marker : List UInt8 := "*singa*".toList.map fun c => UInt8.ofNat c.toNat

def kMaxFrameLen : Nat := 2048

def tag (c : Char) : UInt8 := UInt8.ofNat c.toNat

/-- The bytes of a number in memory. -/
def bytes (n : Nat) {w : Nat} (x : BitVec w) : List UInt8 := Bytes.ofNat n x.toNat

/-- One pass of the loop of `AddFormatFrame`: the bytes it appends, and the arguments that are left. -/
def addField (format : Char) (args : List FormatArg) : Run (List UInt8 × List FormatArg) :=
  match format, args with
  | 'i', .int x :: args => .ok (tag 'i' :: bytes 4 x, args)
  | 'f', .float x :: args => .ok (tag 'f' :: bytes 4 x, args)
  | '1', .uint8 x :: args => .ok (bytes 1 x, args)
  | '2', .uint16 x :: args => .ok (bytes 2 x, args)
  | '4', .uint32 x :: args => .ok (bytes 4 x, args)
  | 's', .str x :: args => .ok (tag 's' :: x.chars ++ [0], args)
  | 'p', .ptr x :: args => .ok (tag 'p' :: bytes 8 x, args)
  -- an unknown letter is logged
  | c, args => if c ∈ ['i', 'f', '1', '2', '4', 's', 'p'] then .error .argument else .ok ([], args)

/-- The loop of `AddFormatFrame`. -/
def addFields (dst : List UInt8) : List Char → List FormatArg → Run (List UInt8)
  | [], _ => .ok dst
  | c :: format, args => do
    let (field, args) ← addField c args
    if (dst ++ field).length ≤ kMaxFrameLen then addFields (dst ++ field) format args else .error .frameLength

/-- `Msg::AddFormatFrame`: the frame; what is returned is its length. -/
def addFormatFrame (format : List Char) (args : List FormatArg) : Run (List UInt8) :=
  addFields (marker ++ [0]) format args

/-- `strlen(src + size)`. -/
def strlen (src : List UInt8) (size : Nat) : Run Nat :=
  if 0 ∈ src.drop size then .ok ((src.drop size).takeWhile (· ≠ 0)).length else .error .range

/-- `CHECK_EQ(src[size++], c)`. -/
def checkTag (src : List UInt8) (size : Nat) (c : Char) : Run Nat :=
  match src[size]? with
  | some b => if b = tag c then .ok (size + 1) else .error .format
  | none => .error .range

/-- `memcpy(x, src + size, n)`: the bytes that are written. -/
def memcpy (src : List UInt8) (size n : Nat) : Run (List UInt8) :=
  if size + n ≤ src.length then .ok ((src.drop size).take n) else .error .range

/-- A number of `n` bytes. -/
def parseNumber (src : List UInt8) (size n : Nat) : Run (List (List UInt8) × Nat) := do
  let x ← memcpy src size n
  .ok ([x], size + n)

/-- A number of `n` bytes behind its letter. -/
def parseTagged (src : List UInt8) (size : Nat) (c : Char) (n : Nat) : Run (List (List UInt8) × Nat) := do
  let size ← checkTag src size c
  parseNumber src size n

/-- The string branch; the length is taken before the letter is skipped. -/
def parseString (src : List UInt8) (size : Nat) : Run (List (List UInt8) × Nat) := do
  let len ← strlen src size
  let size ← checkTag src size 's'
  let x ← memcpy src size len
  .ok ([x ++ [0]], size + (len + 1))

/-- One pass of the loop of `ParseFormatFrame`: the bytes that are written through the next pointer, and the cursor. -/
def parseField (src : List UInt8) (size : Nat) (format : Char) : Run (List (List UInt8) × Nat) :=
  match format with
  | 'i' => parseTagged src size 'i' 4
  | 'f' => parseTagged src size 'f' 4
  | '1' => parseNumber src size 1
  | '2' => parseNumber src size 2
  | '4' => parseNumber src size 4
  | 's' => parseString src size
  | 'p' => parseTagged src size 'p' 8
  | _ => .ok ([], size)

/-- The loop of `ParseFormatFrame`. -/
def parseFields (src : List UInt8) : List Char → Nat → Run (List (List UInt8) × Nat)
  | [], size => .ok ([], size)
  | c :: format, size => do
    let (x, size) ← parseField src size c
    let (rest, size) ← parseFields src format size
    .ok (x ++ rest, size)

/-- `zframe_strdup`: the bytes of the frame, and a zero behind them. -/
def strdup (frame : List UInt8) : List UInt8 := frame ++ [0]

/-- `Msg::ParseFormatFrame`: what is written through the pointers, and the number of bytes parsed. -/
def parseFormatFrame (frame : List UInt8) (format : List Char) : Run (List (List UInt8) × Nat) := do
  let src := strdup frame
  let len ← strlen src 0
  if src.take len = marker then parseFields src format (marker.length + 1) else .error .format

end FormatFrame

namespace FormatArg

/-- The letter of an argument. -/
def letter : FormatArg → Char
  | int _ => 'i'
  | float _ => 'f'
  | uint8 _ => '1'
  | uint16 _ => '2'
  | uint32 _ => '4'
  | str _ => 's'
  | ptr _ => 'p'

/-- The bytes of an argument: a number as it is in memory, a string with its terminating zero. -/
def image : FormatArg → List UInt8
  | int x => FormatFrame.bytes 4 x
  | float x => FormatFrame.bytes 4 x
  | uint8 x => FormatFrame.bytes 1 x
  | uint16 x => FormatFrame.bytes 2 x
  | uint32 x => FormatFrame.bytes 4 x
  | str x => x.chars ++ [0]
  | ptr x => FormatFrame.bytes 8 x

/-- The bytes of an argument in a frame. -/
def encode (x : FormatArg) : List UInt8 :=
  if x.letter ∈ ['1', '2', '4'] then x.image else FormatFrame.tag x.letter :: x.image

end FormatArg

namespace FormatFrame

open FormatArg

/-! ## What `AddFormatFrame` writes -/

theorem addField_letter (x : FormatArg) (args : List FormatArg) :
    addField x.letter (x :: args) = .ok (x.encode, args) := by
  cases x <;> rfl

theorem addFields_eq {dst frame : List UInt8} {args : List FormatArg}
    (h : addFields dst (args.map letter) args = .ok frame) : frame = dst ++ args.flatMap encode := by
  induction args generalizing dst with
  | nil =>
    cases h
    exact (List.append_nil _).symm
  | cons x args ih =>
    rw [List.map_cons, addFields, addField_letter] at h
    obtain ⟨field, here, h⟩ := Run.do_ok.mp h
    obtain rfl : (x.encode, args) = field := Except.ok.inj here
    dsimp only at h
    split at h
    · rw [ih h, List.flatMap_cons, List.append_assoc]
    · cases h

/-! ## What `ParseFormatFrame` reads -/

variable {src rest : List UInt8} {size : Nat}

theorem checkTag_ok {c : Char} (here : src.drop size = tag c :: rest) : checkTag src size c = .ok (size + 1) := by
  have first : src[size]? = some (tag c) := by
    rw [← List.head?_drop, here]
    rfl
  rw [checkTag, first]
  exact if_pos rfl

theorem memcpy_ok {x : List UInt8} (some : 0 < x.length) (here : src.drop size = x ++ rest) :
    memcpy src size x.length = .ok x := by
  have length := congrArg List.length here
  rw [List.length_drop, List.length_append] at length
  rw [memcpy, if_pos (by omega), here, List.take_left]

theorem drop_behind {x : List UInt8} (here : src.drop size = x ++ rest) : src.drop (size + x.length) = rest := by
  rw [← List.drop_drop, here, List.drop_left]

theorem parseNumber_ok {x : List UInt8} {n : Nat} (length : x.length = n) (some : 0 < n)
    (here : src.drop size = x ++ rest) : parseNumber src size n = .ok ([x], size + n) := by
  subst length
  exact Run.do_ok.mpr ⟨x, memcpy_ok some here, rfl⟩

theorem parseTagged_ok {x : List UInt8} {c : Char} {n : Nat} (length : x.length = n) (some : 0 < n)
    (here : src.drop size = tag c :: x ++ rest) : parseTagged src size c n = .ok ([x], size + (n + 1)) := by
  have behind : src.drop (size + 1) = x ++ rest := drop_behind (x := [tag c]) here
  refine Run.do_ok.mpr ⟨size + 1, checkTag_ok here, ?_⟩
  rw [parseNumber_ok length some behind, Nat.add_assoc, Nat.add_comm 1]

theorem takeWhile_cstring {chars : List UInt8} (nulFree : 0 ∉ chars) (rest : List UInt8) :
    (chars ++ 0 :: rest).takeWhile (· ≠ 0) = chars := by
  have all : ∀ b ∈ chars, decide (b ≠ 0) = true := fun b hb => decide_eq_true fun zero => nulFree (zero ▸ hb)
  rw [List.takeWhile_append_of_pos all, List.takeWhile_cons_of_neg (by simp), List.append_nil]

/-- The letter `s` counts for the length: the zero is copied, another one is written, and the cursor is one too far. -/
theorem parseString_eq {x : CString} (here : src.drop size = tag 's' :: x.chars ++ 0 :: rest) :
    parseString src size = .ok ([x.chars ++ [0, 0]], size + (x.chars.length + 3)) := by
  have letter : 0 ∉ tag 's' :: x.chars := by
    rw [List.mem_cons, not_or]
    exact ⟨by decide, x.nulFree⟩
  have zero : 0 ∈ src.drop size := by
    rw [here]
    simp
  have len : strlen src size = .ok (x.chars.length + 1) := by
    rw [strlen, if_pos zero, here, takeWhile_cstring letter, List.length_cons]
  have behind : src.drop (size + 1) = (x.chars ++ [0]) ++ rest := by
    rw [List.append_assoc]
    exact drop_behind (x := [tag 's']) here
  have copied : memcpy src (size + 1) (x.chars.length + 1) = .ok (x.chars ++ [0]) := by
    have all := memcpy_ok (by simp) behind
    rwa [List.length_append] at all
  refine Run.do_ok.mpr ⟨_, len, Run.do_ok.mpr ⟨_, checkTag_ok here, Run.do_ok.mpr ⟨_, copied, ?_⟩⟩⟩
  rw [List.append_assoc]
  congr 2
  omega

/-- A field that is no string is read back. -/
theorem parseField_ok {x : FormatArg} (plain : x.letter ≠ 's') (here : src.drop size = x.encode ++ rest) :
    parseField src size x.letter = .ok ([x.image], size + x.encode.length) := by
  cases x with
  | int x | float x | ptr x => exact parseTagged_ok (by rfl) (by decide) here
  | uint8 x | uint16 x | uint32 x => exact parseNumber_ok (by rfl) (by decide) here
  | str x => exact absurd rfl plain

/-- Fields without strings are read back one after the other. -/
theorem parseFields_ok {args : List FormatArg} (plain : 's' ∉ args.map letter)
    (here : src.drop size = args.flatMap encode ++ rest) :
    parseFields src (args.map letter) size = .ok (args.map image, size + (args.flatMap encode).length) := by
  induction args generalizing size with
  | nil => rfl
  | cons x args ih =>
    rw [List.map_cons, List.mem_cons, not_or] at plain
    rw [List.flatMap_cons, List.append_assoc] at here
    have first := parseField_ok (Ne.symm plain.1) here
    have others := ih plain.2 (drop_behind here)
    refine Run.do_ok.mpr ⟨_, first, Run.do_ok.mpr ⟨_, others, ?_⟩⟩
    rw [List.map_cons, List.flatMap_cons, List.length_append, Nat.add_assoc]
    rfl

/-- Two bytes are written behind the first string. -/
theorem parseFields_string {args : List FormatArg} {x : CString} {format : List Char}
    {written : List (List UInt8)} {size' : Nat} (plain : 's' ∉ args.map letter)
    (here : src.drop size = args.flatMap encode ++ (tag 's' :: x.chars ++ 0 :: rest))
    (run : parseFields src (args.map letter ++ 's' :: format) size = .ok (written, size')) :
    ∃ more, written = args.map image ++ (x.chars ++ [0, 0]) :: more := by
  induction args generalizing size written size' with
  | nil =>
    obtain ⟨first, string, run⟩ := Run.do_ok.mp run
    rw [parseField, parseString_eq here] at string
    obtain rfl := Except.ok.inj string
    obtain ⟨others, -, run⟩ := Run.do_ok.mp run
    cases run
    exact ⟨_, rfl⟩
  | cons y args ih =>
    rw [List.map_cons, List.mem_cons, not_or] at plain
    rw [List.flatMap_cons, List.append_assoc] at here
    obtain ⟨first, field, run⟩ := Run.do_ok.mp run
    rw [parseField_ok (Ne.symm plain.1) here] at field
    obtain rfl := Except.ok.inj field
    obtain ⟨⟨others, last⟩, tail, run⟩ := Run.do_ok.mp run
    rw [List.append_eq] at tail
    obtain ⟨more, same⟩ := ih plain.2 (drop_behind here) tail
    cases run
    exact ⟨more, by rw [same]; rfl⟩

/-- Parsing starts behind the marker. -/
theorem parseFormatFrame_marker (fields : List UInt8) (format : List Char) :
    parseFormatFrame (marker ++ [0] ++ fields) format =
      parseFields (strdup (marker ++ [0] ++ fields)) format (marker.length + 1) := by
  have nulFree : 0 ∉ marker := by decide
  have split : strdup (marker ++ [0] ++ fields) = marker ++ 0 :: (fields ++ [0]) := by simp [strdup]
  have len : strlen (strdup (marker ++ [0] ++ fields)) 0 = .ok marker.length := by
    rw [strlen, split, List.drop_zero, takeWhile_cstring nulFree, if_pos (by simp)]
  have same : (strdup (marker ++ [0] ++ fields)).take marker.length = marker := by rw [split, List.take_left]
  unfold parseFormatFrame
  dsimp only
  rw [len]
  dsimp only [bind, Except.bind]
  rw [if_pos same]

theorem exists_first_string {args : List FormatArg} (string : 's' ∈ args.map letter) :
    ∃ before x after, args = before ++ .str x :: after ∧ 's' ∉ before.map letter := by
  obtain ⟨letters, others, split, first⟩ := List.eq_append_cons_of_mem string
  obtain ⟨before, tail, rfl, rfl, tailLetters⟩ := List.map_eq_append_iff.mp split
  obtain ⟨x, after, rfl, letter, -⟩ := List.map_eq_cons_iff.mp tailLetters
  cases x with
  | str x => exact ⟨before, x, after, rfl, first⟩
  | int | float | uint8 | uint16 | uint32 | ptr => exact absurd letter (by simp [FormatArg.letter])

/-- A format `pre` reads back the first arguments, and the whole format the whole frame. -/
def RoundTrips (frame : List UInt8) (format pre : List Char) (args : List FormatArg) : Prop :=
  ∃ size, parseFormatFrame frame pre = .ok ((args.take pre.length).map image, size) ∧
    (pre = format → size = frame.length)

/-- **A format frame is read back** by a format without strings, and by no other. -/
theorem roundTrips_iff {frame : List UInt8} {format pre : List Char} {args : List FormatArg}
    (typed : format = args.map letter) (added : addFormatFrame format args = .ok frame) (start : pre <+: format) :
    RoundTrips frame format pre args ↔ 's' ∉ pre := by
  subst typed
  have whole := addFields_eq added
  have letters : pre = (args.take pre.length).map letter := by
    rw [List.map_take]
    exact List.prefix_iff_eq_take.mp start
  have fields : (strdup frame).drop (marker.length + 1) =
      (args.take pre.length).flatMap encode ++ ((args.drop pre.length).flatMap encode ++ [0]) := by
    rw [← List.append_assoc, ← List.flatMap_append, List.take_append_drop, whole]
    simp [strdup]
  unfold RoundTrips
  constructor
  · rintro ⟨size, run, -⟩ string
    rw [whole, parseFormatFrame_marker, ← whole] at run
    generalize args.take pre.length = front at letters fields run
    rw [letters] at string
    obtain ⟨before, x, after, rfl, first⟩ := exists_first_string string
    rw [letters, List.map_append] at run
    rw [List.flatMap_append, List.append_assoc] at fields
    have here : FormatArg.encode (.str x) = tag 's' :: x.chars ++ [0] := rfl
    rw [List.flatMap_cons, here, List.append_assoc, List.append_assoc] at fields
    obtain ⟨more, same⟩ := parseFields_string first fields run
    -- the bytes written for the string
    rw [List.map_append, List.map_cons] at same
    have written := (List.cons.inj (List.append_cancel_left same)).1
    have length := congrArg List.length written
    simp [image] at length
  · intro plain
    rw [whole, parseFormatFrame_marker, ← whole]
    have run := parseFields_ok (by rwa [← letters]) fields
    rw [← letters] at run
    refine ⟨_, run, fun full => ?_⟩
    have all : args.take pre.length = args := by
      rw [full, List.length_map, List.take_length]
    rw [all, whole]
    simp only [List.length_append, List.length_singleton]

/-- The arguments 12, 10.f and a pointer. -/
def plainArgs : List FormatArg := [.int 12, .float 0x41200000, .ptr 0x7ffc]

theorem plainArgs_roundTrip : ∃ frame, addFormatFrame ['i', 'f', 'p'] plainArgs = .ok frame ∧
    RoundTrips frame ['i', 'f', 'p'] ['i', 'f'] plainArgs := by
  obtain ⟨frame, added⟩ : ∃ frame, addFormatFrame ['i', 'f', 'p'] plainArgs = .ok frame :=
    Run.exists_of_isOk (by decide +kernel)
  have typed : ['i', 'f', 'p'] = plainArgs.map letter := rfl
  exact ⟨frame, added, (roundTrips_iff typed added ⟨['p'], rfl⟩).mpr (by decide)⟩

/-- The arguments 12, "abc", 10.f and a pointer. -/
def stringArgs : List FormatArg :=
  [.int 12, .str ⟨"abc".toList.map tag, by decide⟩, .float 0x41200000, .ptr 0x7ffc]

/-- The letter of the float behind the string is looked for one byte too late. -/
theorem stringArgs_not_roundTrip : ∃ frame, addFormatFrame ['i', 's', 'f', 'p'] stringArgs = .ok frame ∧
    parseFormatFrame frame ['i', 's', 'f', 'p'] = .error .format ∧
    ¬ RoundTrips frame ['i', 's', 'f', 'p'] ['i', 's', 'f', 'p'] stringArgs := by
  obtain ⟨frame, added⟩ : ∃ frame, addFormatFrame ['i', 's', 'f', 'p'] stringArgs = .ok frame :=
    Run.exists_of_isOk (by decide +kernel)
  have stops : (do parseFormatFrame (← addFormatFrame ['i', 's', 'f', 'p'] stringArgs) ['i', 's', 'f', 'p']) =
      .error .format := by
    decide +kernel
  rw [added] at stops
  refine ⟨frame, added, stops, ?_⟩
  rintro ⟨size, run, -⟩
  rw [show parseFormatFrame frame ['i', 's', 'f', 'p'] = .error .format from stops] at run
  cases run

/-! ## The frames of `Msg` -/

section Msg

variable {α : Type} (bits : α → BitVec 32) (address : Option Memory.Ptr → BitVec 64)

/-- An argument of a message with the bits of its float and the address of its pointer. -/
def ofArg : Arg α → FormatArg
  | .int i => .int (BitVec.ofInt 32 i)
  | .float x => .float (bits x)
  | .ptr p => .ptr (address p)

theorem ofArg_plain (args : List (Arg α)) : 's' ∉ (args.map (ofArg bits address)).map letter := by
  intro string
  obtain ⟨x, mem, here⟩ := List.mem_map.mp string
  obtain ⟨arg, -, rfl⟩ := List.mem_map.mp mem
  cases arg <;> simp [ofArg, letter] at here

/-- The bytes of a format frame have its size, and every shorter format reads a prefix of its arguments. -/
theorem msgFrame {args : List (Arg α)} {frame : List UInt8}
    (added : addFormatFrame ((args.map (ofArg bits address)).map letter) (args.map (ofArg bits address)) = .ok frame) :
    frame.length = (Frame.format args).size ∧ ∀ pre, pre <+: (args.map (ofArg bits address)).map letter →
      ∃ size, parseFormatFrame frame pre =
        .ok (((args.take pre.length).map (ofArg bits address)).map image, size) := by
  constructor
  · have size (arg : Arg α) : (ofArg bits address arg).encode.length = arg.size := by cases arg <;> rfl
    rw [addFields_eq added, List.length_append, List.flatMap_map, List.length_flatMap]
    simp only [size]
    rfl
  · intro pre start
    have plain : 's' ∉ pre := fun string => ofArg_plain bits address args (start.subset string)
    obtain ⟨size, run, -⟩ := (roundTrips_iff rfl added start).mpr plain
    exact ⟨size, by rw [List.map_take]; exact run⟩

end Msg

end FormatFrame
end Singa
