import Singa.Utils.DataShard

/-!
# The two buffers of a shard

`Writing` says which bytes have gone through the writer: those in the file and
those in the buffer. `Reading` says which bytes are still to come at the reader:
the unread ones in the buffer, then those in the file. Both are kept by every
call, wherever the fields lie in the buffers, as long as no sum of `int`s
overflows; `RoomFits` and `SumsFit` say of the sizes alone when that is so.
-/

namespace Singa
set_option autoImplicit false

/-- A tuple in the file: `[key_len key record_len val]`. -/
def Tuple.encode (t : Tuple) : List UInt8 :=
  Bytes.ofNat 8 t.key.length ++ t.key ++ Bytes.ofNat 8 t.val.length ++ t.val

/-- `key.size() + val.size() + 2 * sizeof(size_t)`. -/
def Tuple.size (t : Tuple) : Nat := t.key.length + t.val.length + 16

theorem Tuple.encode_length (t : Tuple) : t.encode.length = t.size := by
  simp only [encode, size, List.length_append, Bytes.ofNat_length]
  omega

/-- The four fields of a tuple. -/
def Tuple.fields (t : Tuple) : List (List UInt8) :=
  [Bytes.ofNat 8 t.key.length, t.key, Bytes.ofNat 8 t.val.length, t.val]

def Tuple.lengths (t : Tuple) : List Nat := t.fields.map List.length

theorem Tuple.lengths_sum (t : Tuple) : t.lengths.sum = t.size := by
  simp only [Tuple.lengths, Tuple.fields, Tuple.size, List.map_cons, List.map_nil, List.sum_cons, List.sum_nil,
    Bytes.ofNat_length]
  omega

def encodeAll (ts : List Tuple) : List UInt8 := ts.flatMap Tuple.encode

theorem encodeAll_append (ts ts' : List Tuple) : encodeAll (ts ++ ts') = encodeAll ts ++ encodeAll ts' :=
  List.flatMap_append

theorem toInt_of_lt {n : Nat} (lt : n < 2 ^ 31) : toInt n = n := by
  unfold toInt
  exact Int.bmod_eq_of_le (by omega) (by omega)

theorem addInt_ok {a b : Int} (low : -2 ^ 31 ≤ a + b) (high : a + b < 2 ^ 31) : addInt a b = .ok (a + b) :=
  if_pos ⟨low, high⟩

theorem window_ok {buf : List UInt8} {pos n : Nat} (le : pos + n ≤ buf.length) :
    window buf pos n = .ok ((buf.drop pos).take n) := by
  by_cases none : n = 0
  · simp [window, none]
  · have positive : ¬ (n : Int) ≤ 0 := by omega
    have inside : (0 : Int) ≤ pos ∧ (pos : Int) + n ≤ buf.length := by omega
    rw [window, if_neg positive, if_pos inside, Int.toNat_natCast, Int.toNat_natCast]

theorem blit_ok {buf bytes : List UInt8} {pos : Nat} (le : pos + bytes.length ≤ buf.length) :
    blit buf pos bytes = .ok (buf.take pos ++ bytes ++ buf.drop (pos + bytes.length)) := by
  have inside : (0 : Int) ≤ pos ∧ (pos : Int) + bytes.length ≤ buf.length := by omega
  simp [blit, inside]

theorem blit_length {buf bytes : List UInt8} {pos : Nat} (le : pos + bytes.length ≤ buf.length) :
    (buf.take pos ++ bytes ++ buf.drop (pos + bytes.length)).length = buf.length := by
  simp only [List.length_append, List.length_take, List.length_drop]
  omega

theorem take_blit {buf bytes : List UInt8} {pos : Nat} (le : pos + bytes.length ≤ buf.length) :
    (buf.take pos ++ bytes ++ buf.drop (pos + bytes.length)).take (pos + bytes.length) = buf.take pos ++ bytes := by
  have length : (buf.take pos ++ bytes).length = pos + bytes.length := by
    rw [List.length_append, List.length_take_of_le (by omega)]
  rw [← length, List.take_left]

namespace DataShard

/-! ## Writing -/

/-- A writer with a buffer of `cap` bytes that started at `pos` in `file` and was given the bytes `out`. -/
structure Writing (file : List UInt8) (pos cap : Nat) (s : DataShard) (out : List UInt8) : Prop where
  capacity : s.capacity = cap
  length : s.buf.length = cap
  good : s.fdat.good
  written : ∃ (b : Nat) (w : List UInt8), s.bufsize = b ∧ b ≤ cap ∧ s.fdat.bytes = Bytes.writeAt file pos w ∧
    s.fdat.pos = pos + w.length ∧ w ++ s.buf.take b = out

variable {file out : List UInt8} {pos cap : Nat} {s : DataShard} {t : Tuple}

theorem Writing.opened (mode : Mode) (file : List UInt8) (pos : Nat) (keys : Finset (List UInt8)) (cap : Nat) :
    Writing file pos cap (opened mode (Stream.opened file pos) keys cap) [] :=
  ⟨rfl, by simp [DataShard.opened], rfl, 0, [], rfl, by omega, (Bytes.writeAt_nil _ _).symm, rfl, rfl⟩

/-- What the buffer holds goes into the file. -/
theorem Writing.writeBuffer (h : Writing file pos cap s out) : ∃ s', s.writeBuffer = .ok s' ∧ s'.bufsize = 0 ∧
    s'.keys = s.keys ∧ s'.mode = s.mode ∧ Writing file pos cap s' out ∧ s'.fdat.bytes = Bytes.writeAt file pos out := by
  obtain ⟨b, w, size, le, bytes, at_, all⟩ := h.written
  have taken : window s.buf 0 s.bufsize = .ok (s.buf.take b) := by
    have whole : window s.buf (0 : Nat) b = .ok ((s.buf.drop 0).take b) := window_ok (by rw [h.length]; omega)
    rw [size]
    exact whole
  have good := h.good
  have file' : Bytes.writeAt s.fdat.bytes s.fdat.pos (s.buf.take b) = Bytes.writeAt file pos out := by
    rw [bytes, at_, Bytes.writeAt_writeAt, all]
  refine ⟨_, Run.do_ok.mpr ⟨_, taken, rfl⟩, rfl, rfl, rfl, ?_, ?_⟩
  · refine ⟨h.capacity, h.length, ?_, 0, out, rfl, by omega, ?_, ?_, by simp⟩
    · rw [Stream.write_of_good good]
      exact good
    · rw [Stream.write_of_good good, file']
    · rw [Stream.write_of_good good, ← all, List.length_append, at_, Nat.add_assoc]
  · rw [Stream.write_of_good good, file']

/-- A field goes into the buffer. -/
theorem Writing.putField (h : Writing file pos cap s out) (bytes : List UInt8) {b : Nat} (size : s.bufsize = b)
    (le : b + bytes.length ≤ cap) : ∃ s', s.putField bytes = .ok s' ∧ s'.bufsize = (b + bytes.length : Nat) ∧
      s'.keys = s.keys ∧ s'.mode = s.mode ∧ Writing file pos cap s' (out ++ bytes) := by
  obtain ⟨b', w, size', -, bytes', at_, all⟩ := h.written
  obtain rfl : b' = b := by omega
  have fits : b' + bytes.length ≤ s.buf.length := by rw [h.length]; exact le
  have copied : blit s.buf b' bytes = _ := blit_ok fits
  rw [← size] at copied
  refine ⟨_, Run.do_ok.mpr ⟨_, copied, rfl⟩, by rw [size]; push_cast; rfl, rfl, rfl, h.capacity, ?_, h.good,
    b' + bytes.length, w, by rw [size]; push_cast; rfl, le, bytes', at_, ?_⟩
  · exact (blit_length fits).trans h.length
  · rw [take_blit fits, ← List.append_assoc, all]

/-- How many bytes are in the buffer behind a tuple of `k` bytes, if there were `b` before it. -/
def filled (cap b k : Nat) : Nat := if b + k ≤ cap then b + k else k

/-- No tuple is larger than the buffer, and the sums of the bytes in the buffer and the size of a tuple are `int`s:
`b` bytes are in the buffer at first. -/
def RoomFits (cap : Nat) : Nat → List Nat → Prop
  | _, [] => True
  | b, k :: ks => (b + k < 2 ^ 31 ∧ k ≤ cap) ∧ RoomFits cap (filled cap b k) ks

instance RoomFits.decidable (cap : Nat) : ∀ (b : Nat) (ks : List Nat), Decidable (RoomFits cap b ks)
  | _, [] => inferInstanceAs (Decidable True)
  | b, k :: ks => @instDecidableAnd _ _ inferInstance (RoomFits.decidable cap (filled cap b k) ks)

theorem filled_le {b k : Nat} (fits : k ≤ cap) : filled cap b k ≤ cap := by
  unfold filled
  split <;> omega

/-- Tuples of less than 2 GiB together. -/
theorem RoomFits.of_sum {b : Nat} {ks : List Nat} (small : b + ks.sum < 2 ^ 31) (fits : ∀ k ∈ ks, k ≤ cap) :
    RoomFits cap b ks := by
  induction ks generalizing b with
  | nil => trivial
  | cons k ks ih =>
    rw [List.sum_cons] at small
    have before : filled cap b k ≤ b + k := by
      unfold filled
      split <;> omega
    exact ⟨⟨by omega, fits k List.mem_cons_self⟩, ih (by omega) fun k mem => fits k (List.mem_cons_of_mem _ mem)⟩

/-- A buffer that has with each tuple less than 2 GiB. -/
theorem RoomFits.of_cap {b : Nat} {ks : List Nat} (le : b ≤ cap) (each : ∀ k ∈ ks, k ≤ cap ∧ cap + k < 2 ^ 31) :
    RoomFits cap b ks := by
  induction ks generalizing b with
  | nil => trivial
  | cons k ks ih =>
    obtain ⟨fits, here⟩ := each k List.mem_cons_self
    exact ⟨⟨by omega, fits⟩, ih (filled_le fits) fun k mem => each k (List.mem_cons_of_mem _ mem)⟩

theorem RoomFits.le {b : Nat} {ks : List Nat} (room : RoomFits cap b ks) : ∀ k ∈ ks, k ≤ cap := by
  induction ks generalizing b with
  | nil => simp
  | cons k ks ih => exact List.forall_mem_cons.mpr ⟨room.1.2, ih room.2⟩

theorem RoomFits.take {b : Nat} {ks : List Nat} (room : RoomFits cap b ks) (n : Nat) : RoomFits cap b (ks.take n) := by
  induction ks generalizing b n with
  | nil => simp [RoomFits]
  | cons k ks ih =>
    cases n with
    | zero => trivial
    | succ n => exact ⟨room.1, ih room.2 n⟩

/-- The buffer has room for a tuple, as long as the sizes add up to an `int`. -/
theorem Writing.makeRoom (h : Writing file pos cap s out) {size b : Nat} (length : s.bufsize = b) (fits : size ≤ cap)
    (narrow : b + size < 2 ^ 31) : ∃ (s' : DataShard) (b' : Nat), s.makeRoom size = .ok s' ∧ s'.bufsize = b' ∧
      b' + size = filled cap b size ∧ s'.keys = s.keys ∧ s'.mode = s.mode ∧ Writing file pos cap s' out := by
  have sum : addInt s.bufsize (size : Int) = .ok (s.bufsize + size) := addInt_ok (by omega) (by omega)
  unfold filled
  by_cases full : s.capacity < s.bufsize + size
  · obtain ⟨s', run, empty, keys, mode, h', -⟩ := h.writeBuffer
    have admitted : (size : Int) ≤ s'.capacity := by
      rw [h'.capacity]
      omega
    rw [h.capacity] at full
    refine ⟨s', 0, Run.do_ok.mpr ⟨_, sum, ?_⟩, empty, ?_, keys, mode, h'⟩
    · rw [h.capacity, if_pos full]
      exact Run.do_ok.mpr ⟨s', run, if_pos admitted⟩
    · rw [if_neg (by omega), Nat.zero_add]
  · refine ⟨s, b, Run.do_ok.mpr ⟨_, sum, if_neg full⟩, length, ?_, rfl, rfl, h⟩
    rw [h.capacity] at full
    rw [if_pos (by omega)]

/-- What `Insert` goes by: the value is not empty, and the key is not in `keys_`. -/
def Takes (keys : Finset (List UInt8)) (t : Tuple) : Prop := t.val ≠ [] ∧ t.key ∉ keys

theorem Takes.asked (takes : Takes s.keys t) : ¬ (t.key ∈ s.keys ∨ t.val.length = 0) := by
  simp [takes.1, takes.2]

/-- **`Insert`** of a tuple that fits. -/
theorem Writing.insert (h : Writing file pos cap s out) (takes : Takes s.keys t) {b : Nat} (length : s.bufsize = b)
    (fits : t.size ≤ cap) (small : cap < 2 ^ 31) (narrow : b + t.size < 2 ^ 31) :
    ∃ s', s.insert t = .ok (s', true) ∧ s'.bufsize = filled cap b t.size ∧ s'.keys = s.keys ∧ s'.mode = s.mode ∧
      Writing file pos cap s' (out ++ t.encode) := by
  have tuple : toInt (t.key.length + t.val.length + 2 * 8) = t.size := toInt_of_lt (by unfold Tuple.size at fits; omega)
  obtain ⟨s₁, b₁, run₁, size₁, room₁, keys₁, mode₁, h₁⟩ := h.makeRoom length fits narrow
  have inside := filled_le (b := b) fits
  have total : b₁ + (t.key.length + t.val.length + 16) = filled cap b t.size := room₁
  obtain ⟨s₂, run₂, size₂, keys₂, mode₂, h₂⟩ :=
    h₁.putField (Bytes.ofNat 8 t.key.length) size₁ (by simp; omega)
  obtain ⟨s₃, run₃, size₃, keys₃, mode₃, h₃⟩ := h₂.putField t.key size₂ (by simp; omega)
  obtain ⟨s₄, run₄, size₄, keys₄, mode₄, h₄⟩ :=
    h₃.putField (Bytes.ofNat 8 t.val.length) size₃ (by simp; omega)
  obtain ⟨s₅, run₅, size₅, keys₅, mode₅, h₅⟩ := h₄.putField t.val size₄ (by simp; omega)
  refine ⟨s₅, ?_, ?_, by rw [keys₅, keys₄, keys₃, keys₂, keys₁], by rw [mode₅, mode₄, mode₃, mode₂, mode₁], ?_⟩
  · rw [DataShard.insert, if_neg takes.asked, tuple]
    exact Run.do_ok.mpr ⟨_, run₁, Run.do_ok.mpr ⟨_, run₂, Run.do_ok.mpr ⟨_, run₃, Run.do_ok.mpr ⟨_, run₄,
      Run.do_ok.mpr ⟨_, run₅, rfl⟩⟩⟩⟩⟩
  · rw [size₅, ← total, Bytes.ofNat_length, Bytes.ofNat_length]
    push_cast
    ring
  · simpa [Tuple.encode] using h₅

/-- A field is copied only to where it has room. -/
theorem putField_room {s' : DataShard} {bytes : List UInt8} (run : s.putField bytes = .ok s') :
    0 ≤ s.bufsize ∧ s'.bufsize = s.bufsize + bytes.length ∧ s'.bufsize ≤ s'.buf.length ∧
      s'.buf.length = s.buf.length := by
  obtain ⟨buf, copied, same⟩ := Run.do_ok.mp run
  cases same
  unfold blit at copied
  split at copied
  · next inside =>
    cases copied
    have length : (s.buf.take s.bufsize.toNat ++ bytes ++ s.buf.drop (s.bufsize.toNat + bytes.length)).length =
        s.buf.length := blit_length (by omega)
    refine ⟨inside.1, rfl, ?_, length⟩
    simp only [length]
    exact inside.2
  · cases copied

theorem makeRoom_buf {s' : DataShard} {size : Int} (run : s.makeRoom size = .ok s') : s'.buf = s.buf := by
  obtain ⟨total, -, run⟩ := Run.do_ok.mp run
  split at run
  · obtain ⟨s₁, written, run⟩ := Run.do_ok.mp run
    obtain ⟨out, -, same⟩ := Run.do_ok.mp written
    cases same
    split at run
    · cases run
      rfl
    · cases run
  · cases run
    rfl

/-- What was inserted is not larger than the buffer. -/
theorem insert_size_le {s' : DataShard} (takes : Takes s.keys t) {accepted : Bool}
    (run : s.insert t = .ok (s', accepted)) : t.size ≤ s.buf.length := by
  rw [DataShard.insert, if_neg takes.asked] at run
  obtain ⟨s₁, run₁, run⟩ := Run.do_ok.mp run
  obtain ⟨s₂, run₂, run⟩ := Run.do_ok.mp run
  obtain ⟨s₃, run₃, run⟩ := Run.do_ok.mp run
  obtain ⟨s₄, run₄, run⟩ := Run.do_ok.mp run
  obtain ⟨s₅, run₅, -⟩ := Run.do_ok.mp run
  have buf := makeRoom_buf run₁
  obtain ⟨start, size₂, -, buf₂⟩ := putField_room run₂
  obtain ⟨-, size₃, -, buf₃⟩ := putField_room run₃
  obtain ⟨-, size₄, -, buf₄⟩ := putField_room run₄
  obtain ⟨-, size₅, inside, buf₅⟩ := putField_room run₅
  rw [Bytes.ofNat_length] at size₂ size₄
  rw [buf₅, buf₄, buf₃, buf₂, buf] at inside
  rw [Tuple.size]
  omega

/-- **`Insert`** of a tuple that it goes on with: it fits, or the call does not return. -/
theorem Writing.insert_cases (h : Writing file pos cap s out) (takes : Takes s.keys t) {b : Nat} (length : s.bufsize = b)
    (small : cap < 2 ^ 31) :
    ((b + t.size < 2 ^ 31 ∧ t.size ≤ cap) ∧ ∃ s', s.insert t = .ok (s', true) ∧ s'.bufsize = filled cap b t.size ∧
      s'.keys = s.keys ∧ s'.mode = s.mode ∧ Writing file pos cap s' (out ++ t.encode)) ∨
    (¬ (b + t.size < 2 ^ 31 ∧ t.size ≤ cap) ∧ ∃ e, s.insert t = .error e) := by
  by_cases fits : t.size ≤ cap
  · by_cases narrow : b + t.size < 2 ^ 31
    · exact .inl ⟨⟨narrow, fits⟩, h.insert takes length fits small narrow⟩
    · refine .inr ⟨fun both => narrow both.1, .overflow, ?_⟩
      have tuple : toInt (t.key.length + t.val.length + 2 * 8) = t.size :=
        toInt_of_lt (by unfold Tuple.size at fits; omega)
      have sum : addInt s.bufsize t.size = .error .overflow := if_neg (by omega)
      rw [DataShard.insert, if_neg takes.asked, tuple, DataShard.makeRoom, sum]
      rfl
  · refine .inr ⟨fun both => fits both.2, ?_⟩
    cases run : s.insert t with
    | error e => exact ⟨e, rfl⟩
    | ok r =>
      have le := insert_size_le takes run
      rw [h.length] at le
      exact (fits le).elim

/-! ## Reading -/

/-- A reader with a buffer of `cap` bytes, `o` of `b` bytes of it read, and `rest` still to be read. -/
structure Reading (file : List UInt8) (cap o b : Nat) (s : DataShard) (rest : List UInt8) : Prop where
  mode : s.mode = .kRead
  capacity : s.capacity = cap
  length : s.buf.length = cap
  bytes : s.fdat.bytes = file
  offset : s.offset = o
  bufsize : s.bufsize = b
  le : o ≤ b
  inside : b ≤ cap
  unread : (s.buf.take b).drop o ++ s.fdat.rest = rest
  bits : s.fdat.good = true ∨ s.fdat.eof = true ∧ s.fdat.rest = []
  behind : o + rest.length ≤ file.length

variable {rest : List UInt8} {o b size : Nat}

theorem Reading.opened (file : List UInt8) (cap : Nat) (keys : Finset (List UInt8)) :
    Reading file cap 0 0 (DataShard.opened .kRead (Stream.opened file 0) keys cap) file :=
  ⟨rfl, rfl, by simp [DataShard.opened], rfl, rfl, rfl, by omega, by omega, rfl, .inl rfl, by omega⟩

theorem Reading.seekToFirst (h : Reading file cap o b s rest) :
    ∃ s', s.seekToFirst = .ok s' ∧ Reading file cap 0 0 s' file := by
  refine ⟨_, if_pos h.mode, h.mode, h.capacity, h.length, h.bytes, rfl, rfl, by omega, by omega, ?_, .inl rfl, by omega⟩
  simp [Stream.rest, Stream.opened, h.bytes]

theorem Reading.unread_length (h : Reading file cap o b s rest) : ((s.buf.take b).drop o).length = b - o := by
  have := h.length
  have := h.inside
  rw [List.length_drop, List.length_take]
  omega

/-- The unread bytes move to the front of the buffer. -/
theorem Reading.shift (h : Reading file cap o b s rest) : ∃ kept buf, kept.length = b - o ∧
    window s.buf s.offset (s.bufsize - s.offset) = .ok kept ∧ blit s.buf 0 kept = .ok buf ∧
    buf.length = cap ∧ buf.take kept.length = kept ∧ kept ++ s.fdat.rest = rest := by
  have unread := h.unread_length
  have moved : window s.buf s.offset (s.bufsize - s.offset) = .ok ((s.buf.take b).drop o) := by
    have whole : window s.buf o (b - o : Nat) = .ok ((s.buf.drop o).take (b - o)) :=
      window_ok (by have := h.length; have := h.inside; have := h.le; omega)
    rw [h.offset, h.bufsize, ← Nat.cast_sub h.le, whole, List.drop_take]
  have total := h.unread
  generalize (s.buf.take b).drop o = kept at moved unread total
  have fits : 0 + kept.length ≤ s.buf.length := by
    rw [unread, h.length]
    have := h.inside
    omega
  have front := take_blit fits
  rw [Nat.zero_add, List.take_zero, List.nil_append] at front
  refine ⟨kept, kept ++ s.buf.drop kept.length, unread, moved, ?_, ?_, front, total⟩
  · have copied : blit s.buf (0 : Nat) kept = _ := blit_ok fits
    rwa [Nat.zero_add, List.take_zero, List.nil_append] at copied
  · have same := blit_length fits
    rw [Nat.zero_add, List.take_zero, List.nil_append] at same
    rw [same, h.length]

/-- A refill: behind the unread bytes the file adds what there is room for. -/
theorem Reading.refill (h : Reading file cap o b s rest) (fits : o + size < 2 ^ 31) (short : b < o + size) :
    ∃ b' s', s.prepareNextField size = .ok (s', decide (size ≤ b')) ∧ b' = min cap rest.length ∧
      Reading file cap 0 b' s' rest := by
  have sum : addInt s.offset size = .ok (s.offset + size) := by
    rw [h.offset]
    exact addInt_ok (by omega) (by omega)
  have more : s.bufsize < s.offset + size := by
    rw [h.offset, h.bufsize]
    omega
  obtain ⟨kept, buf, unread, moved, blitted, bufLength, bufTake, total⟩ := h.shift
  have size₁ : s.bufsize - s.offset = (kept.length : Nat) := by
    rw [h.offset, h.bufsize, unread, ← Nat.cast_sub h.le]
  have behind : 0 + rest.length ≤ file.length := by have := h.behind; omega
  rcases h.bits with good | ⟨eof, none⟩
  · have notEof : s.fdat.eof = false := by
      simp only [Stream.good, Bool.and_eq_true, Bool.not_eq_true'] at good
      exact good.1
    obtain ⟨got, file', rest', bits'⟩ := Stream.read_spec good (cap - kept.length)
    have gotFits : kept.length + (s.fdat.read (cap - kept.length)).1.length ≤ buf.length := by
      rw [got, List.length_take, bufLength, unread]
      have := h.inside
      omega
    have filled := blit_ok gotFits
    refine ⟨kept.length + (s.fdat.read (cap - kept.length)).1.length,
      { s with
        fdat := (s.fdat.read (cap - kept.length)).2
        buf := buf.take kept.length ++ (s.fdat.read (cap - kept.length)).1 ++
          buf.drop (kept.length + (s.fdat.read (cap - kept.length)).1.length)
        offset := 0
        bufsize := (kept.length + (s.fdat.read (cap - kept.length)).1.length : Nat) },
      Run.do_ok.mpr ⟨_, sum, ?_⟩, ?_, h.mode, h.capacity, (blit_length gotFits).trans bufLength, file'.trans h.bytes,
      rfl, rfl, by omega, ?_, ?_, bits', behind⟩
    · rw [if_pos more]
      refine Run.do_ok.mpr ⟨_, moved, Run.do_ok.mpr ⟨_, blitted, ?_⟩⟩
      have room : (s.capacity - (s.bufsize - s.offset)).toNat = cap - kept.length := by
        rw [h.capacity, size₁]
        omega
      simp only [notEof, Bool.false_eq_true, if_false, room]
      rw [size₁]
      refine Run.do_ok.mpr ⟨_, filled, ?_⟩
      simp only [← Nat.cast_add, Nat.cast_le]
    · rw [got, List.length_take, ← total, List.length_append]
      have := h.inside
      omega
    · rw [bufLength] at gotFits
      exact gotFits
    · rw [take_blit gotFits, List.drop_zero, bufTake, rest', got, List.append_assoc, List.take_append_drop, total]
  · refine ⟨kept.length, { s with buf := buf, offset := 0, bufsize := (kept.length : Nat) },
      Run.do_ok.mpr ⟨_, sum, ?_⟩, ?_, h.mode, h.capacity, bufLength, h.bytes, rfl, rfl, by omega,
      ?_, ?_, .inr ⟨eof, none⟩, behind⟩
    · rw [if_pos more]
      refine Run.do_ok.mpr ⟨_, moved, Run.do_ok.mpr ⟨_, blitted, ?_⟩⟩
      have missing : ¬ size ≤ kept.length := by omega
      simp only [eof, if_true, size₁, missing, decide_false]
    · rw [← total, none, List.append_nil]
      have := h.inside
      omega
    · rw [unread]
      have := h.inside
      omega
    · rw [List.drop_zero, bufTake, total]

/-- Where a field of `size` bytes ends in the buffer: one that does not end in it is read from the front on. -/
def fieldEnd (o b size : Nat) : Nat := if o + size ≤ b then o + size else size

/-- How many bytes are in the buffer then, if `m` bytes were still to be read. -/
def refilled (cap o b size m : Nat) : Nat := if o + size ≤ b then b else min cap m

/-- The next field is there. -/
theorem Reading.prepare (h : Reading file cap o b s rest) (fits : o + size < 2 ^ 31) (le : size ≤ rest.length)
    (small : size ≤ cap) : ∃ o' s', s.prepareNextField size = .ok (s', true) ∧ o' + size = fieldEnd o b size ∧
      fieldEnd o b size ≤ refilled cap o b size rest.length ∧
      Reading file cap o' (refilled cap o b size rest.length) s' rest := by
  unfold fieldEnd refilled
  by_cases there : o + size ≤ b
  · have sum : addInt s.offset size = .ok (s.offset + size) := by
      rw [h.offset]
      exact addInt_ok (by omega) (by omega)
    have enough : ¬ s.bufsize < s.offset + size := by
      rw [h.offset, h.bufsize]
      omega
    simp only [if_pos there]
    exact ⟨o, s, Run.do_ok.mpr ⟨_, sum, if_neg enough⟩, rfl, there, h⟩
  · obtain ⟨b', s', run, rfl, h'⟩ := h.refill fits (by omega)
    have complete : size ≤ min cap rest.length := by omega
    rw [decide_eq_true complete] at run
    simp only [if_neg there]
    exact ⟨0, s', run, Nat.zero_add size, complete, h'⟩

/-- **A field that is there** is read, wherever it lies in the buffer and the file. -/
theorem Reading.nextField_at {field : List UInt8} (h : Reading file cap o b s (field ++ rest))
    (fits : o + field.length < 2 ^ 31) (small : field.length ≤ cap) :
    ∃ s', s.nextField field.length = .ok (s', some field) ∧
      Reading file cap (fieldEnd o b field.length) (refilled cap o b field.length (field ++ rest).length) s' rest := by
  obtain ⟨o', s', run, end_, there, h'⟩ := h.prepare fits (by simp) small
  generalize refilled cap o b field.length (field ++ rest).length = b' at there h' ⊢
  rw [← end_] at there ⊢
  have unread := h'.unread_length
  have taken : (s'.buf.drop o').take field.length = field := by
    have front := congrArg (List.take field.length) h'.unread
    rw [List.take_left, List.take_append_of_le_length (by omega), List.drop_take, List.take_take,
      Nat.min_eq_left (by omega)] at front
    exact front
  have read : window s'.buf s'.offset field.length = .ok field := by
    rw [h'.offset, window_ok (by have := h'.length; have := h'.inside; omega), taken]
  refine ⟨{ s' with offset := s'.offset + field.length },
    Run.do_ok.mpr ⟨_, run, Run.do_ok.mpr ⟨_, read, rfl⟩⟩, h'.mode, h'.capacity, h'.length, h'.bytes, ?_, h'.bufsize,
    there, h'.inside, ?_, h'.bits, ?_⟩
  · simp only [h'.offset]
    push_cast
    rfl
  · have behind := congrArg (List.drop field.length) h'.unread
    rw [List.drop_left, List.drop_append_of_le_length (by omega), List.drop_drop] at behind
    exact behind
  · have := h'.behind
    rw [List.length_append] at this
    omega

/-- A sum that is no `int`. -/
theorem Reading.nextField_overflow (h : Reading file cap o b s rest) (wide : ¬ o + size < 2 ^ 31) :
    s.nextField size = .error .overflow := by
  have sum : addInt s.offset size = .error .overflow := by
    rw [h.offset]
    exact if_neg (by omega)
  rw [DataShard.nextField, prepareNextField, sum]
  rfl

/-- A field that is not complete, or larger than the buffer, is not read, and its bytes are in front then. -/
theorem Reading.field_left (h : Reading file cap o b s rest) (fits : o + size < 2 ^ 31)
    (away : rest.length < size ∨ cap < size) : ∃ s', s.nextField size = .ok (s', none) ∧
      Reading file cap 0 (min cap rest.length) s' rest := by
  have unread := h.unread_length
  have total := congrArg List.length h.unread
  rw [List.length_append, unread] at total
  obtain ⟨b', s', run, rfl, h'⟩ := h.refill fits (by have := h.le; have := h.inside; omega)
  have missing : ¬ size ≤ min cap rest.length := by omega
  rw [decide_eq_false missing] at run
  exact ⟨s', Run.do_ok.mpr ⟨_, run, rfl⟩, h'⟩

/-- A tuple whose fields all go into a buffer of `cap` bytes. -/
def Holdable (cap : Nat) (t : Tuple) : Prop := ∀ f ∈ t.fields, f.length ≤ cap

theorem holdable_iff {cap : Nat} {t : Tuple} : Holdable cap t ↔ 8 ≤ cap ∧ t.key.length ≤ cap ∧ t.val.length ≤ cap := by
  simp only [Holdable, Tuple.fields, List.forall_mem_cons, Bytes.ofNat_length]
  simp
  tauto

/-- Of `fields` and what is behind them `m` bytes are there: the bytes from the first field on that is not complete,
or larger than the buffer. -/
def leftFrom (cap : Nat) : List (List UInt8) → List UInt8 → Nat → List UInt8
  | [], more, m => more.take m
  | f :: fs, more, m =>
    if f.length ≤ m ∧ f.length ≤ cap then leftFrom cap fs more (m - f.length) else ((f :: fs).flatten ++ more).take m

/-- The sums of the offset and a length are `int`s, up to the first field that is not complete, or larger than the
buffer: `o` of `b` bytes in the buffer are read, and `m` bytes are still to be read. -/
def SumsFit (cap : Nat) : Nat → Nat → Nat → List Nat → Prop
  | _, _, _, [] => True
  | o, b, m, k :: ks =>
    o + k < 2 ^ 31 ∧ (k ≤ m ∧ k ≤ cap → SumsFit cap (fieldEnd o b k) (refilled cap o b k m) (m - k) ks)

/-! ## One call of `Next` -/

variable {more : List UInt8} {m : Nat} {ks : List Nat}

/-- Fields of less than 2 GiB together. -/
theorem SumsFit.of_sum (small : o + ks.sum < 2 ^ 31) : SumsFit cap o b m ks := by
  induction ks generalizing o b m with
  | nil => trivial
  | cons k ks ih =>
    rw [List.sum_cons] at small
    have before : fieldEnd o b k ≤ o + k := by
      unfold fieldEnd
      split <;> omega
    exact ⟨by omega, fun _ => ih (by omega)⟩

/-- A buffer that has with each field less than 2 GiB. -/
theorem SumsFit.of_cap (le : o ≤ cap) (inside : b ≤ cap) (each : ∀ k ∈ ks, cap + k < 2 ^ 31) : SumsFit cap o b m ks := by
  induction ks generalizing o b m with
  | nil => trivial
  | cons k ks ih =>
    have here := each k List.mem_cons_self
    refine ⟨by omega, fun there => ih ?_ ?_ fun k mem => each k (List.mem_cons_of_mem _ mem)⟩
    · unfold fieldEnd
      split <;> omega
    · unfold refilled
      split <;> omega

/-- **A field**: it is read, or what is there of it is left, or the sum of the offset and its length is no `int`. -/
theorem Reading.field_cases {f : List UInt8} (h : Reading file cap o b s ((f ++ more).take m)) :
    ((f.length ≤ m ∧ f.length ≤ cap) ∧ ∃ o' b' s', s.nextField f.length = .ok (s', some f) ∧
      Reading file cap o' b' s' (more.take (m - f.length)) ∧ ∀ ks,
        (SumsFit cap o b ((f ++ more).take m).length (f.length :: ks) ↔
          SumsFit cap o' b' (more.take (m - f.length)).length ks)) ∨
    (¬ (f.length ≤ m ∧ f.length ≤ cap) ∧ ∃ s', s.nextField f.length = .ok (s', none) ∧
      Reading file cap 0 (min cap ((f ++ more).take m).length) s' ((f ++ more).take m) ∧ ∀ ks,
        SumsFit cap o b ((f ++ more).take m).length (f.length :: ks)) ∨
    (s.nextField f.length = .error .overflow ∧ ∀ ks, ¬ SumsFit cap o b ((f ++ more).take m).length (f.length :: ks)) := by
  by_cases int : o + f.length < 2 ^ 31
  · by_cases there : f.length ≤ m ∧ f.length ≤ cap
    · apply Or.inl
      obtain ⟨k, rfl⟩ : ∃ k, m = f.length + k := ⟨m - f.length, by omega⟩
      rw [Bytes.take_behind] at h
      obtain ⟨s', run, h'⟩ := h.nextField_at int there.2
      rw [Nat.add_sub_cancel_left, Bytes.take_behind]
      refine ⟨there, _, _, s', run, h', fun ks => ?_⟩
      have whole : (f ++ more.take k).length - f.length = (more.take k).length := by
        rw [List.length_append, Nat.add_sub_cancel_left]
      have inFile : f.length ≤ (f ++ more.take k).length := by
        rw [List.length_append]
        omega
      rw [SumsFit, and_iff_right int, whole, forall_prop_of_true ⟨inFile, there.2⟩]
    · refine .inr (.inl ?_)
      have away : ((f ++ more).take m).length < f.length ∨ cap < f.length := by
        rw [List.length_take, List.length_append]
        omega
      obtain ⟨s', run, h'⟩ := h.field_left int away
      exact ⟨there, s', run, h', fun ks => ⟨int, fun there' => by omega⟩⟩
  · exact .inr (.inr ⟨h.nextField_overflow int, fun ks sums => int sums.1⟩)

/-- **`Next`** where `m` bytes of a tuple and of what follows it are there. -/
theorem Reading.next_cases (h : Reading file cap o b s ((t.encode ++ more).take m)) (nonempty : t.val ≠ [])
    (ints : ∀ f ∈ t.fields, f.length < 2 ^ 31) :
    ((t.size ≤ m ∧ Holdable cap t) ∧ ∃ o' b' s', s.next = .ok (s', some t) ∧
      Reading file cap o' b' s' (more.take (m - t.size)) ∧ ∀ ks,
        (SumsFit cap o b ((t.encode ++ more).take m).length (t.lengths ++ ks) ↔
          SumsFit cap o' b' (more.take (m - t.size)).length ks)) ∨
    (¬ (t.size ≤ m ∧ Holdable cap t) ∧ ∃ s', s.next = .ok (s', none) ∧
      Reading file cap 0 (min cap (leftFrom cap t.fields more m).length) s' (leftFrom cap t.fields more m) ∧ ∀ ks,
        SumsFit cap o b ((t.encode ++ more).take m).length (t.lengths ++ ks)) ∨
    (s.next = .error .overflow ∧ ∀ ks,
      ¬ SumsFit cap o b ((t.encode ++ more).take m).length (t.lengths ++ ks)) := by
  have eight (n : Nat) : (Bytes.ofNat 8 n).length = 8 := Bytes.ofNat_length 8 n
  simp only [Tuple.fields, List.forall_mem_cons] at ints
  obtain ⟨-, keyBound, -, valBound, -⟩ := ints
  have keylen : toInt (Bytes.toNat (Bytes.ofNat 8 t.key.length)) = t.key.length := by
    rw [Bytes.toNat_ofNat (by omega), toInt_of_lt keyBound]
  have vallen : toInt (Bytes.toNat (Bytes.ofNat 8 t.val.length)) = t.val.length := by
    rw [Bytes.toNat_ofNat (by omega), toInt_of_lt valBound]
  have positive : ¬ (t.val.length : Int) = 0 := by
    have := List.length_pos_iff.mpr nonempty
    omega
  rw [holdable_iff, Tuple.size]
  simp only [Tuple.encode, Tuple.lengths, Tuple.fields, leftFrom, List.flatten_cons, List.flatten_nil, List.append_nil,
    List.append_assoc, List.map_cons, List.map_nil, List.cons_append, List.nil_append] at h ⊢
  unfold DataShard.next
  rcases h.field_cases with ⟨there, o₁, b₁, s₁, run₁, h₁, sums₁⟩ | ⟨gone, s₁, run₁, h₁, sums₁⟩ | ⟨run₁, sums₁⟩
  · rw [if_pos there]
    simp only [eight, Nat.cast_ofNat] at run₁ h₁ there sums₁ ⊢
    simp only [run₁, bind, Except.bind, keylen, sums₁]
    rcases h₁.field_cases with ⟨there₂, o₂, b₂, s₂, run₂, h₂, sums₂⟩ | ⟨gone, s₂, run₂, h₂, sums₂⟩ | ⟨run₂, sums₂⟩
    · simp only [run₂, if_pos there₂, sums₂]
      rcases h₂.field_cases with ⟨there₃, o₃, b₃, s₃, run₃, h₃, sums₃⟩ | ⟨gone, s₃, run₃, h₃, sums₃⟩ | ⟨run₃, sums₃⟩
      · simp only [eight, Nat.cast_ofNat] at run₃ h₃ there₃ sums₃ ⊢
        simp only [run₃, vallen, if_pos there₃, sums₃]
        rcases h₃.field_cases with ⟨there₄, o₄, b₄, s₄, run₄, h₄, sums₄⟩ | ⟨gone, s₄, run₄, h₄, sums₄⟩ | ⟨run₄, sums₄⟩
        · apply Or.inl
          have size : m - 8 - t.key.length - 8 - t.val.length = m - (t.key.length + t.val.length + 16) := by omega
          simp only [run₄, positive, if_false, sums₄]
          rw [size] at h₄ ⊢
          exact ⟨by omega, o₄, b₄, s₄, rfl, h₄, fun _ => Iff.rfl⟩
        · refine .inr (.inl ?_)
          simp only [run₄, if_neg gone]
          exact ⟨by omega, s₄, rfl, h₄, sums₄⟩
        · exact .inr (.inr ⟨by simp only [run₄], sums₄⟩)
      · refine .inr (.inl ?_)
        simp only [eight, Nat.cast_ofNat] at run₃ gone sums₃ ⊢
        simp only [run₃, if_neg gone]
        exact ⟨by omega, s₃, rfl, h₃, fun _ => sums₃ _⟩
      · simp only [eight, Nat.cast_ofNat] at run₃ sums₃ ⊢
        exact .inr (.inr ⟨by simp only [run₃], fun _ => sums₃ _⟩)
    · refine .inr (.inl ?_)
      simp only [run₂, if_neg gone]
      exact ⟨by omega, s₂, rfl, h₂, fun _ => sums₂ _⟩
    · exact .inr (.inr ⟨by simp only [run₂], fun _ => sums₂ _⟩)
  · refine .inr (.inl ?_)
    rw [if_neg gone]
    simp only [eight, Nat.cast_ofNat] at run₁ gone sums₁ ⊢
    simp only [run₁, bind, Except.bind]
    exact ⟨by omega, s₁, rfl, h₁, fun _ => sums₁ _⟩
  · simp only [eight, Nat.cast_ofNat] at run₁ sums₁ ⊢
    exact .inr (.inr ⟨by simp only [run₁, bind, Except.bind], fun _ => sums₁ _⟩)

/-- A tuple with all of its bytes. -/
theorem Reading.next_whole_cases (h : Reading file cap o b s (t.encode ++ more)) (nonempty : t.val ≠ [])
    (ints : ∀ f ∈ t.fields, f.length < 2 ^ 31) :
    (Holdable cap t ∧ ∃ o' b' s', s.next = .ok (s', some t) ∧ Reading file cap o' b' s' more ∧ ∀ ks,
      (SumsFit cap o b (t.encode ++ more).length (t.lengths ++ ks) ↔ SumsFit cap o' b' more.length ks)) ∨
    (¬ Holdable cap t ∧ ∃ s' left, s.next = .ok (s', none) ∧ Reading file cap 0 (min cap left.length) s' left ∧ ∀ ks,
      SumsFit cap o b (t.encode ++ more).length (t.lengths ++ ks)) ∨
    (s.next = .error .overflow ∧ ∀ ks, ¬ SumsFit cap o b (t.encode ++ more).length (t.lengths ++ ks)) := by
  have whole : t.encode ++ more = (t.encode ++ more).take (t.size + more.length) := by
    rw [← t.encode_length, ← List.length_append, List.take_length]
  have behind : more.take (t.size + more.length - t.size) = more := by
    rw [Nat.add_sub_cancel_left, List.take_length]
  rw [whole] at h
  have cases := h.next_cases nonempty ints
  rw [← whole, behind] at cases
  rcases cases with ⟨⟨-, fits⟩, next⟩ | ⟨misfits, s', run, h', sums⟩ | overflow
  · exact .inl ⟨fits, next⟩
  · exact .inr (.inl ⟨fun fits => misfits ⟨by omega, fits⟩, s', _, run, h', sums⟩)
  · exact .inr (.inr overflow)

/-- A tuple in a small file, or fields that are small together with the buffer. -/
theorem Reading.next_whole (h : Reading file cap o b s (t.encode ++ more)) (nonempty : t.val ≠ [])
    (narrow : file.length < 2 ^ 31 ∨ ∀ f ∈ t.fields, cap + f.length < 2 ^ 31) :
    (Holdable cap t ∧ ∃ o' b' s', s.next = .ok (s', some t) ∧ Reading file cap o' b' s' more) ∨
      (¬ Holdable cap t ∧ ∃ s' left, s.next = .ok (s', none) ∧ Reading file cap 0 (min cap left.length) s' left) := by
  have behind := h.behind
  have le := h.le
  have inside := h.inside
  rw [List.length_append, t.encode_length] at behind
  have ints : ∀ f ∈ t.fields, f.length < 2 ^ 31 := by
    intro f mem
    rcases narrow with inFile | inBuffer
    · have part := List.single_le_sum (fun _ _ => Nat.zero_le _) _ (List.mem_map_of_mem (f := List.length) mem)
      have total : (t.fields.map List.length).sum = t.size := t.lengths_sum
      omega
    · have here := inBuffer f mem
      omega
  have sums : SumsFit cap o b (t.encode ++ more).length (t.lengths ++ []) := by
    rw [List.append_nil]
    rcases narrow with inFile | inBuffer
    · apply SumsFit.of_sum
      rw [t.lengths_sum]
      omega
    · apply SumsFit.of_cap (le.trans inside) inside
      intro k mem
      obtain ⟨f, known, rfl⟩ := List.mem_map.mp mem
      exact inBuffer f known
  rcases h.next_whole_cases nonempty ints with ⟨fits, o', b', s', run, h', -⟩ | ⟨misfits, s', left, run, h', -⟩ | ⟨-, none⟩
  · exact .inl ⟨fits, o', b', s', run, h'⟩
  · exact .inr ⟨misfits, s', left, run, h'⟩
  · exact absurd sums (none [])

/-- At the end of the file `Next` returns nothing. -/
theorem Reading.next_end (h : Reading file cap o b s rest) (short : rest.length < 8) (fits : o + 8 < 2 ^ 31) :
    ∃ s', s.next = .ok (s', none) ∧ Reading file cap 0 (min cap rest.length) s' rest := by
  obtain ⟨s', run, h'⟩ := h.field_left fits (.inl short)
  exact ⟨s', Run.do_ok.mpr ⟨_, run, rfl⟩, h'⟩

theorem Reading.next_overflow (h : Reading file cap o b s rest) (wide : ¬ o + 8 < 2 ^ 31) :
    s.next = .error .overflow := by
  have run := h.nextField_overflow wide
  rw [Nat.cast_ofNat] at run
  rw [DataShard.next, run]
  rfl

end DataShard
end Singa
