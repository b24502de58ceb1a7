import Singa.Base.Orbit
import Singa.Base.Simulation
import Singa.Utils.ShardRoundTrip

/-!
# Reading any file

The lengths in a file need not be those of a tuple. `Next` takes them as `int`s,
so a field may be longer than the file, and the offset may move backwards. A
cursor over the file says where the reader is, whatever its buffer holds: `pos`
is the next byte, and the bytes from `lo` to `hi` are in the buffer. The reader
follows the cursor for as long as its offset stays inside of what it holds.
-/

namespace Singa
set_option autoImplicit false

namespace DataShard

/-- `DataShard::Next` over a way to get fields. -/
def nextOf {σ : Type} (field : σ → Int → Run (σ × Option (List UInt8))) (s : σ) : Run (σ × Option Tuple) := do
  match ← field s 8 with
  | (s, none) => .ok (s, none)
  | (s, some keylen) =>
    match ← field s (toInt (Bytes.toNat keylen)) with
    | (s, none) => .ok (s, none)
    | (s, some key) =>
      match ← field s 8 with
      | (s, none) => .ok (s, none)
      | (s, some vallen) =>
        match ← field s (toInt (Bytes.toNat vallen)) with
        | (s, none) => .ok (s, none)
        | (s, some val) => .ok (s, if toInt (Bytes.toNat vallen) = 0 then none else some ⟨key, val⟩)

theorem next_eq_nextOf (s : DataShard) : s.next = nextOf nextField s := by
  unfold next nextOf
  apply bind_congr
  rintro ⟨s, _ | keylen⟩
  · rfl
  apply bind_congr
  rintro ⟨s, _ | key⟩
  · rfl
  apply bind_congr
  rintro ⟨s, _ | vallen⟩
  · rfl
  apply bind_congr
  rintro ⟨s, _ | val⟩
  · rfl
  · rfl

/-- Ways to get fields that follow each other. -/
theorem followed_nextOf {σ τ : Type} {R : σ → τ → Prop} {f : σ → Int → Run (σ × Option (List UInt8))}
    {g : τ → Int → Run (τ × Option (List UInt8))} (field : ∀ s t size, R s t → Followed R (f s size) (g t size))
    (s : σ) (t : τ) (related : R s t) : Followed R (nextOf f s) (nextOf g t) := by
  unfold nextOf
  apply (field s t 8 related).bind
  intro s t keylen related
  cases keylen with
  | none => exact Followed.pure related none
  | some keylen =>
    apply (field s t _ related).bind
    intro s t key related
    cases key with
    | none => exact Followed.pure related none
    | some key =>
      apply (field s t 8 related).bind
      intro s t vallen related
      cases vallen with
      | none => exact Followed.pure related none
      | some vallen =>
        apply (field s t _ related).bind
        intro s t val related
        cases val with
        | none => exact Followed.pure related none
        | some val => exact Followed.pure related _

/-! ## The reader, watched -/

/-- `0 <= offset_ <= bufsize_ <= capacity_`. -/
def Inside (s : DataShard) : Prop := 0 ≤ s.offset ∧ s.offset ≤ s.bufsize ∧ s.bufsize ≤ s.capacity

instance (s : DataShard) : Decidable s.Inside :=
  inferInstanceAs (Decidable (0 ≤ s.offset ∧ s.offset ≤ s.bufsize ∧ s.bufsize ≤ s.capacity))

/-- A state that is given up unless its offset is inside. -/
def watched {α : Type} (s : DataShard) (a : α) : Run (DataShard × α) := if s.Inside then .ok (s, a) else .error .range

/-- `nextField`, watched: whenever the buffer was refilled or the offset was moved, the offset is inside, and the
bytes of the field are in `[0, bufsize_)`. -/
def watchedField (s : DataShard) (size : Int) : Run (DataShard × Option (List UInt8)) := do
  let (s, there) ← s.prepareNextField size
  let (s, there) ← watched s there
  if there then
    if size ≤ 0 ∨ s.offset + size ≤ s.bufsize then
      let bytes ← window s.buf s.offset size
      watched { s with offset := s.offset + size } (some bytes)
    else .error .range
  else .ok (s, none)

/-- `Next`, watched. -/
def watchedNext : DataShard → Run (DataShard × Option Tuple) := nextOf watchedField

/-- What is seen under watch is what happens. -/
theorem watchedField_followed (s t : DataShard) (size : Int) (same : s = t) :
    Followed Eq (s.watchedField size) (t.nextField size) := by
  subst same
  intro s' bytes run
  refine ⟨s', ?_, rfl⟩
  obtain ⟨⟨s₁, there⟩, prepared, run⟩ := Run.do_ok.mp run
  obtain ⟨⟨s₂, there₂⟩, inside, run⟩ := Run.do_ok.mp run
  unfold watched at inside
  split at inside
  · cases inside
    apply Run.do_ok.mpr ⟨_, prepared, _⟩
    cases there with
    | false => exact run
    | true =>
      simp only [if_true] at run ⊢
      split at run
      · obtain ⟨read, held, run⟩ := Run.do_ok.mp run
        unfold watched at run
        split at run
        · cases run
          exact Run.do_ok.mpr ⟨_, held, rfl⟩
        · cases run
      · cases run
  · cases inside

/-! ## A cursor over the file -/

/-- The next byte is the one at `pos`, and the bytes from `lo` on and before `hi` are in the buffer. -/
structure Cursor where
  lo : Nat
  pos : Nat
  hi : Nat
  deriving DecidableEq, Repr

variable (file : List UInt8) (cap : Nat)

namespace Cursor

/-- Before the first read. -/
def start : Cursor := ⟨0, 0, 0⟩

/-- A buffer that does not have the next `size` bytes starts at the next byte then. -/
def slide (c : Cursor) (size : Int) : Cursor :=
  if (c.hi : Int) < c.pos + size then ⟨c.pos, c.pos, min (c.pos + cap) file.length⟩ else c

/-- The next field, which must not lead behind the range of `int` or before the buffer. -/
def field (c : Cursor) (size : Int) : Run (Cursor × Option (List UInt8)) := do
  let _ ← addInt (c.pos - c.lo) size
  let c := c.slide file cap size
  if (c.hi : Int) < c.pos + size then .ok (c, none)
  else if c.pos + size < c.lo then .error .range
  else .ok ({ c with pos := (c.pos + size).toNat }, some ((file.drop c.pos).take size.toNat))

/-- `Next` along the file. -/
def next : Cursor → Run (Cursor × Option Tuple) := nextOf (field file cap)

end Cursor

variable {file cap}

/-- The reader is where the cursor is. -/
structure Holds (file : List UInt8) (cap : Nat) (s : DataShard) (c : Cursor) : Prop where
  mode : s.mode = .kRead
  capacity : s.capacity = cap
  length : s.buf.length = cap
  offset : s.offset = (c.pos - c.lo : Nat)
  bufsize : s.bufsize = (c.hi - c.lo : Nat)
  behind : c.lo ≤ c.pos
  before : c.pos ≤ c.hi
  inside : c.hi ≤ c.lo + cap
  end_ : c.hi ≤ file.length
  held : s.buf.take (c.hi - c.lo) = (file.drop c.lo).take (c.hi - c.lo)
  rest : s.fdat.rest = file.drop c.hi
  bits : s.fdat.good = true ∨ s.fdat.eof = true ∧ s.fdat.rest = []
  large : file.length ≤ c.lo + s.fdat.bytes.length

variable {s : DataShard} {c : Cursor} {size : Int}

theorem Holds.opened (file : List UInt8) (cap : Nat) (keys : Finset (List UInt8)) :
    Holds file cap (DataShard.opened .kRead (Stream.opened file 0) keys cap) Cursor.start where
  mode := rfl
  capacity := rfl
  length := List.length_replicate
  offset := rfl
  bufsize := rfl
  behind := Nat.le_refl 0
  before := Nat.le_refl 0
  inside := Nat.zero_le _
  end_ := Nat.zero_le _
  held := rfl
  rest := rfl
  bits := .inl rfl
  large := Nat.le_add_left _ _

theorem Holds.within (h : Holds file cap s c) : s.Inside := by
  have := h.before
  have := h.inside
  unfold Inside
  rw [h.offset, h.bufsize, h.capacity]
  omega

/-- What is still to be read. -/
theorem Holds.reading (h : Holds file cap s c) :
    Reading s.fdat.bytes cap (c.pos - c.lo) (c.hi - c.lo) s (file.drop c.pos) := by
  have behind := h.behind
  have before := h.before
  have end_ := h.end_
  refine ⟨h.mode, h.capacity, h.length, rfl, h.offset, h.bufsize, by omega, by have := h.inside; omega, ?_, h.bits, ?_⟩
  · have first : c.lo + (c.pos - c.lo) = c.pos := by omega
    have last : c.pos + (c.hi - c.lo - (c.pos - c.lo)) = c.hi := by omega
    rw [h.held, h.rest, List.drop_take, List.drop_drop, first]
    conv_rhs => rw [← List.take_append_drop (c.hi - c.lo - (c.pos - c.lo)) (file.drop c.pos), List.drop_drop, last]
  · have := h.large
    rw [List.length_drop]
    omega

/-- A reader that was just refilled. -/
theorem Holds.of_reading {bytes : List UInt8} {pos : Nat} (le : pos ≤ file.length)
    (h : Reading bytes cap 0 (min cap (file.drop pos).length) s (file.drop pos)) (large : file.length ≤ pos + bytes.length) :
    Holds file cap s ⟨pos, pos, min (pos + cap) file.length⟩ := by
  have length : (file.drop pos).length = file.length - pos := List.length_drop
  have size : min cap (file.drop pos).length = min (pos + cap) file.length - pos := by
    rw [length]
    omega
  have front := h.unread
  have held := h.unread_length
  rw [List.drop_zero] at front held
  refine ⟨h.mode, h.capacity, h.length, by simp [h.offset], by rw [h.bufsize, size], Nat.le_refl _,
    by simp only; omega, by simp only; omega, by simp only; omega, ?_, ?_, h.bits, by rw [h.bytes]; exact large⟩
  · have first := congrArg (List.take (min cap (file.drop pos).length)) front
    rw [List.take_append_of_le_length (by omega), List.take_take, Nat.min_self] at first
    simp only
    rw [← size, first]
  · have behind := congrArg (List.drop (min cap (file.drop pos).length)) front
    have past : pos + min cap (file.drop pos).length = min (pos + cap) file.length := by omega
    rw [List.drop_append_of_le_length (by omega), List.drop_drop, past] at behind
    rw [← behind, List.drop_eq_nil_of_le (by omega), List.nil_append]

/-- **A refill** leaves the reader at the cursor, and says whether the field is there. -/
theorem Holds.prepare (h : Holds file cap s c) {last : Int} (sum : addInt s.offset size = .ok last) :
    ∃ s', s.prepareNextField size =
      .ok (s', decide (¬ ((c.slide file cap size).hi : Int) < (c.slide file cap size).pos + size)) ∧
      Holds file cap s' (c.slide file cap size) := by
  have behind := h.behind
  have before := h.before
  have end_ := h.end_
  have bounds : -2 ^ 31 ≤ s.offset + size ∧ s.offset + size < 2 ^ 31 ∧ last = s.offset + size := by
    unfold addInt at sum
    split at sum
    · cases sum
      next within => exact ⟨within.1, within.2, rfl⟩
    · cases sum
  obtain ⟨low, high, rfl⟩ := bounds
  rw [h.offset] at low high
  by_cases short : (c.hi : Int) < c.pos + size
  · obtain ⟨n, rfl⟩ : ∃ n : Nat, size = n := ⟨size.toNat, by omega⟩
    obtain ⟨b', s', run, length, h'⟩ := h.reading.refill (show c.pos - c.lo + n < 2 ^ 31 by omega) (by omega)
    have le : c.pos ≤ file.length := by omega
    have moved : c.slide file cap n = ⟨c.pos, c.pos, min (c.pos + cap) file.length⟩ := if_pos short
    have size' : (file.drop c.pos).length = file.length - c.pos := List.length_drop
    refine ⟨s', ?_, ?_⟩
    · rw [run, moved]
      congr 2
      rw [decide_eq_decide, length, size']
      simp only
      omega
    · rw [moved]
      subst length
      have := h.large
      exact Holds.of_reading le h' (by omega)
  · have kept : c.slide file cap size = c := if_neg short
    have enough : ¬ s.bufsize < s.offset + size := by
      rw [h.offset, h.bufsize]
      omega
    refine ⟨s, ?_, by rwa [kept]⟩
    rw [kept, decide_eq_true short]
    exact Run.do_ok.mpr ⟨_, sum, if_neg enough⟩

/-- A reader whose offset is before the buffer. -/
structure Astray (s : DataShard) : Prop where
  offset : s.offset < 0
  bufsize : 0 ≤ s.bufsize

/-- It cannot read another length. -/
theorem Astray.nextField (h : Astray s) : ∃ e, s.nextField 8 = .error e := by
  have offset := h.offset
  have bufsize := h.bufsize
  have outside (n : Int) (positive : 0 < n) : window s.buf s.offset n = .error .range := by
    unfold window
    rw [if_neg (by omega), if_neg (by omega)]
  unfold DataShard.nextField prepareNextField
  by_cases sum : -2 ^ 31 ≤ s.offset + 8 ∧ s.offset + 8 < 2 ^ 31
  · have added : addInt s.offset 8 = .ok (s.offset + 8) := if_pos sum
    simp only [added, bind, Except.bind]
    by_cases short : s.bufsize < s.offset + 8
    · rw [if_pos short, outside _ (by omega)]
      exact ⟨_, rfl⟩
    · rw [if_neg short]
      simp only [if_true, outside 8 (by omega)]
      exact ⟨_, rfl⟩
  · have added : addInt s.offset 8 = .error .overflow := if_neg sum
    rw [added]
    exact ⟨_, rfl⟩

/-- The bytes of a field that is in the buffer. -/
theorem Holds.window_field (h : Holds file cap s c) {size : Int} (there : ¬ (c.hi : Int) < c.pos + size) :
    window s.buf s.offset size = .ok ((file.drop c.pos).take size.toNat) := by
  have before := h.before
  have behind := h.behind
  have inside := h.inside
  by_cases none : size ≤ 0
  · have zero : size.toNat = 0 := by omega
    rw [window, if_pos none, zero, List.take_zero]
  · obtain ⟨n, rfl⟩ : ∃ n : Nat, size = n := ⟨size.toNat, by omega⟩
    have front := congrArg (List.take n) h.reading.unread
    have count := h.reading.unread_length
    rw [List.take_append_of_le_length (by omega), List.drop_take, List.take_take, Nat.min_eq_left (by omega)] at front
    rw [h.offset, window_ok (by rw [h.length]; omega), front, Int.toNat_natCast]

/-- Reader and cursor move along. -/
theorem Holds.move (h : Holds file cap s c) {size : Int} (there : ¬ (c.hi : Int) < c.pos + size)
    (inBuffer : ¬ c.pos + size < c.lo) :
    Holds file cap { s with offset := s.offset + size } { c with pos := (c.pos + size).toNat } := by
  have behind := h.behind
  refine ⟨h.mode, h.capacity, h.length, ?_, h.bufsize, ?_, ?_, h.inside, h.end_, h.held, h.rest, h.bits, h.large⟩
  · simp only [h.offset]
    omega
  · simp only
    omega
  · simp only
    omega

/-- A length that leads before the buffer. -/
theorem Holds.astray (h : Holds file cap s c) {size : Int} (left : c.pos + size < c.lo) :
    Astray { s with offset := s.offset + size } := by
  have behind := h.behind
  have before := h.before
  constructor
  · simp only [h.offset]
    omega
  · simp only [h.bufsize]
    omega

/-- **The next field**: where the cursor stops, the watched reader does, and the reader stops or is led astray. -/
theorem Holds.field (h : Holds file cap s c) (size : Int) :
    (∃ c' s' bytes, c.field file cap size = .ok (c', bytes) ∧ s.watchedField size = .ok (s', bytes) ∧
      Holds file cap s' c') ∨
    (∃ e e', c.field file cap size = .error e ∧ s.watchedField size = .error e' ∧
      ((∃ e, s.nextField size = .error e) ∨ size < 0 ∧ ∃ s', s.nextField size = .ok (s', some []) ∧ Astray s')) := by
  have offset : s.offset = c.pos - c.lo := by
    have := h.behind
    rw [h.offset]
    omega
  cases sum : addInt s.offset size with
  | error e =>
    apply Or.inr
    refine ⟨e, e, ?_, ?_, .inl ⟨e, ?_⟩⟩
    · rw [Cursor.field, ← offset, sum]
      rfl
    · rw [watchedField, prepareNextField, sum]
      rfl
    · rw [DataShard.nextField, prepareNextField, sum]
      rfl
  | ok last =>
    obtain ⟨s', run, h'⟩ := h.prepare sum
    have cursor : c.field file cap size =
        (let c := c.slide file cap size
         if (c.hi : Int) < c.pos + size then .ok (c, none)
         else if c.pos + size < c.lo then .error .range
         else .ok ({ c with pos := (c.pos + size).toNat }, some ((file.drop c.pos).take size.toNat))) := by
      rw [Cursor.field, ← offset, sum]
      rfl
    have reader : s.watchedField size = (do
        let (s, there) ← watched s' (decide (¬ ((c.slide file cap size).hi : Int) < (c.slide file cap size).pos + size))
        if there then
          if size ≤ 0 ∨ s.offset + size ≤ s.bufsize then
            let bytes ← window s.buf s.offset size
            watched { s with offset := s.offset + size } (some bytes)
          else .error .range
        else .ok (s, none)) := by
      rw [watchedField, run]
      rfl
    have plain : s.nextField size =
        if decide (¬ ((c.slide file cap size).hi : Int) < (c.slide file cap size).pos + size) then do
          let bytes ← window s'.buf s'.offset size
          .ok ({ s' with offset := s'.offset + size }, some bytes)
        else .ok (s', none) := by
      rw [DataShard.nextField, run]
      rfl
    rw [cursor, reader, plain]
    generalize c.slide file cap size = c' at h' ⊢
    have inside : watched s' (decide (¬ (c'.hi : Int) < c'.pos + size)) =
        .ok (s', decide (¬ (c'.hi : Int) < c'.pos + size)) := if_pos h'.within
    rw [inside]
    have behind := h'.behind
    have before := h'.before
    have within := h'.inside
    by_cases short : (c'.hi : Int) < c'.pos + size
    · exact .inl ⟨c', s', none, by simp [short], by simp [short, bind, Except.bind], h'⟩
    · have size_le : size ≤ 0 ∨ s'.offset + size ≤ s'.bufsize := by
        rw [h'.offset, h'.bufsize]
        omega
      have bytes := h'.window_field short
      by_cases left : c'.pos + size < c'.lo
      · apply Or.inr
        have out : ¬ Inside { s' with offset := s'.offset + size } := fun inside => (h'.astray left).offset.not_ge inside.1
        have zero : size.toNat = 0 := by omega
        refine ⟨.range, .range, by simp [short, left], ?_, .inr ⟨by omega, _, ?_, h'.astray left⟩⟩
        · simp [short, bind, Except.bind, size_le, bytes, watched, out]
        · simp [short, bind, Except.bind, bytes, zero]
      · have moved := h'.move short left
        have inside : Inside { s' with offset := s'.offset + size } := moved.within
        refine .inl ⟨_, _, some ((file.drop c'.pos).take size.toNat), by simp [short, left], ?_, moved⟩
        simp [short, bind, Except.bind, size_le, bytes, watched, inside]

theorem Holds.field_followed (c : Cursor) (s : DataShard) (size : Int) (h : Holds file cap s c) :
    Followed (fun c s => Holds file cap s c) (c.field file cap size) (s.watchedField size) := by
  intro c' bytes run
  rcases h.field size with ⟨c₁, s₁, bytes₁, run₁, watched₁, h₁⟩ | ⟨e, e', fails, -⟩
  · rw [run] at run₁
    cases run₁
    exact ⟨s₁, watched₁, h₁⟩
  · rw [run] at fails
    cases fails

theorem Holds.watchedField_followed (s : DataShard) (c : Cursor) (size : Int) (h : Holds file cap s c) :
    Followed (Holds file cap) (s.watchedField size) (c.field file cap size) := by
  intro s' bytes run
  rcases h.field size with ⟨c₁, s₁, bytes₁, run₁, watched₁, h₁⟩ | ⟨e, e', -, fails, -⟩
  · rw [run] at watched₁
    cases watched₁
    exact ⟨c₁, run₁, h₁⟩
  · rw [run] at fails
    cases fails

/-- **The watched reader and the cursor** return the same, as long as either goes on. -/
theorem Holds.steps (h : Holds file cap s c) (n : Nat) (found : List (Option Tuple)) :
    (∃ s', steps watchedNext n s = .ok (s', found)) ↔ ∃ c', Singa.steps (Cursor.next file cap) n c = .ok (c', found) := by
  constructor
  · rintro ⟨s', run⟩
    obtain ⟨c', run', -⟩ := Followed.steps (followed_nextOf Holds.watchedField_followed) n h s' found run
    exact ⟨c', run'⟩
  · rintro ⟨c', run⟩
    obtain ⟨s', run', -⟩ := Followed.steps (followed_nextOf Holds.field_followed) n h c' found run
    exact ⟨s', run'⟩

/-! ## Calls that return nothing -/

/-- The reader without a watch: it goes with the cursor, or fails, or is led astray by a negative length. -/
theorem Holds.field_plain (h : Holds file cap s c) (size : Int) :
    (∃ c' s' bytes, c.field file cap size = .ok (c', bytes) ∧ s.nextField size = .ok (s', bytes) ∧
      Holds file cap s' c') ∨
    ((∃ e, s.nextField size = .error e) ∨ size < 0 ∧ ∃ s', s.nextField size = .ok (s', some []) ∧ Astray s') := by
  rcases h.field size with ⟨c', s', bytes, cursor, seen, h'⟩ | ⟨e, e', -, -, failed⟩
  · obtain ⟨s'', run, rfl⟩ := DataShard.watchedField_followed s s size rfl s' bytes seen
    exact .inl ⟨c', s', bytes, cursor, run, h'⟩
  · exact .inr failed

/-- **A call that returns nothing** is one at the cursor. -/
theorem Holds.next_none {s' : DataShard} (h : Holds file cap s c) (run : s.next = .ok (s', none)) :
    ∃ c', c.next file cap = .ok (c', none) ∧ Holds file cap s' c' := by
  rw [next_eq_nextOf] at run
  unfold Cursor.next
  unfold nextOf at run ⊢
  rcases h.field_plain 8 with ⟨c₁, s₁, keylen, cursor₁, run₁, h₁⟩ | failed | ⟨negative, -⟩
  · rw [cursor₁]
    rw [run₁] at run
    cases keylen with
    | none =>
      cases run
      exact ⟨c₁, rfl, h₁⟩
    | some keylen =>
      simp only [bind, Except.bind] at run ⊢
      rcases h₁.field_plain (toInt (Bytes.toNat keylen)) with
        ⟨c₂, s₂, key, cursor₂, run₂, h₂⟩ | ⟨e, failed⟩ | ⟨-, s₂, run₂, astray⟩
      · rw [cursor₂]
        rw [run₂] at run
        cases key with
        | none =>
          cases run
          exact ⟨c₂, rfl, h₂⟩
        | some key =>
          simp only at run ⊢
          rcases h₂.field_plain 8 with ⟨c₃, s₃, vallen, cursor₃, run₃, h₃⟩ | ⟨e, failed⟩ | ⟨negative, -⟩
          · rw [cursor₃]
            rw [run₃] at run
            cases vallen with
            | none =>
              cases run
              exact ⟨c₃, rfl, h₃⟩
            | some vallen =>
              simp only at run ⊢
              rcases h₃.field_plain (toInt (Bytes.toNat vallen)) with
                ⟨c₄, s₄, val, cursor₄, run₄, h₄⟩ | ⟨e, failed⟩ | ⟨negative, s₄, run₄, -⟩
              · rw [cursor₄]
                rw [run₄] at run
                cases val with
                | none =>
                  cases run
                  exact ⟨c₄, rfl, h₄⟩
                | some val =>
                  obtain ⟨rfl, empty⟩ := Prod.mk.inj (Except.ok.inj run)
                  exact ⟨c₄, congrArg (fun t => Except.ok (c₄, t)) empty, h₄⟩
              · rw [failed] at run
                cases run
              · -- a negative length makes a tuple
                rw [run₄] at run
                obtain ⟨-, made⟩ := Prod.mk.inj (Except.ok.inj run)
                rw [if_neg negative.ne] at made
                cases made
          · rw [failed] at run
            cases run
          · omega
      · rw [failed] at run
        cases run
      · obtain ⟨e, failed⟩ := astray.nextField
        rw [run₂] at run
        simp only [failed] at run
        cases run
  · obtain ⟨e, failed⟩ := failed
    rw [failed] at run
    cases run
  · omega

theorem Cursor.next_none {c' : Cursor} (h : Holds file cap s c) (walk : c.next file cap = .ok (c', none)) :
    ∃ s', s.next = .ok (s', none) ∧ Holds file cap s' c' := by
  obtain ⟨s₁, seen, h₁⟩ := followed_nextOf Holds.field_followed c s h c' none walk
  obtain ⟨s₂, run, rfl⟩ := followed_nextOf watchedField_followed s s rfl s₁ none seen
  exact ⟨s₁, (next_eq_nextOf s).trans run, h₁⟩

/-- **Calls that return nothing for ever** are calls at the cursor. -/
theorem Holds.yields_none (h : Holds file cap s c) :
    (Yields next s fun _ => none) ↔ Yields (Cursor.next file cap) c fun _ => none :=
  ⟨Yields.of_related (fun _ _ h _ run => h.next_none run) h,
    Yields.of_related (fun _ _ h _ walk => Cursor.next_none h walk) h⟩

/-! ## Positions -/

/-- A cursor inside of the file and of the buffer. -/
structure Cursor.Sound (file : List UInt8) (cap : Nat) (c : Cursor) : Prop where
  behind : c.lo ≤ c.pos
  before : c.pos ≤ c.hi
  inside : c.hi ≤ c.lo + cap
  end_ : c.hi ≤ file.length

/-- The next field, whatever is in the buffer. -/
def fieldAt (file : List UInt8) (cap : Nat) (pos : Nat) (size : Int) : Run (Nat × Option (List UInt8)) :=
  if size ≤ cap ∧ pos + size ≤ file.length then
    .ok ((pos + size).toNat, some ((file.drop pos).take size.toNat))
  else .ok (pos, none)

/-- Where `Next` goes to from a position. -/
def goesTo (file : List UInt8) (cap : Nat) (pos : Nat) : Nat :=
  match nextOf (fieldAt file cap) pos with
  | .ok (pos, _) => pos
  | .error _ => pos

/-- What it returns there. -/
def returnsAt (file : List UInt8) (cap : Nat) (pos : Nat) : Option Tuple :=
  match nextOf (fieldAt file cap) pos with
  | .ok (_, t) => t
  | .error _ => none

/-- **Whether a field is there** does not depend on what is in the buffer. -/
theorem Cursor.field_position (c : Cursor) (pos : Nat) (size : Int) (related : c.pos = pos ∧ c.Sound file cap) :
    Followed (fun c pos => c.pos = pos ∧ c.Sound file cap) (c.field file cap size) (fieldAt file cap pos size) := by
  obtain ⟨rfl, behind, before, inside, end_⟩ := related
  intro c' bytes run
  obtain ⟨last, -, run⟩ := Run.do_ok.mp run
  unfold fieldAt
  by_cases short : (c.hi : Int) < c.pos + size
  · have moved : c.slide file cap size = ⟨c.pos, c.pos, min (c.pos + cap) file.length⟩ := if_pos short
    simp only [moved] at run
    split at run
    · cases run
      rw [if_neg (by omega)]
      exact ⟨c.pos, rfl, rfl, by constructor <;> simp only <;> omega⟩
    · split at run
      · cases run
      · cases run
        rw [if_pos (by omega)]
        exact ⟨_, rfl, rfl, by constructor <;> simp only <;> omega⟩
  · have kept : c.slide file cap size = c := if_neg short
    simp only [kept] at run
    split at run
    · exact absurd ‹_› short
    · split at run
      · cases run
      · cases run
        rw [if_pos (by omega)]
        exact ⟨_, rfl, rfl, by constructor <;> simp only <;> omega⟩

theorem Cursor.start_sound : Cursor.start.Sound file cap := by
  constructor <;> simp [Cursor.start]

/-- **Calls of `Next`** go from position to position. -/
theorem Cursor.steps_returns {n : Nat} {c' : Cursor} {found : List (Option Tuple)} (sound : c.Sound file cap)
    (run : Singa.steps (Cursor.next file cap) n c = .ok (c', found)) :
    found = (List.range n).map fun i => returnsAt file cap ((goesTo file cap)^[i] c.pos) := by
  induction n generalizing c c' found with
  | zero =>
    cases run
    rfl
  | succ n ih =>
    obtain ⟨⟨c₁, t⟩, first, run⟩ := Run.do_ok.mp run
    obtain ⟨⟨c₂, ts⟩, rest, run⟩ := Run.do_ok.mp run
    cases run
    obtain ⟨pos, at_, rfl, sound₁⟩ := followed_nextOf Cursor.field_position c c.pos ⟨rfl, sound⟩ c₁ t first
    have here : returnsAt file cap c.pos = t := by rw [returnsAt, at_]
    have there : goesTo file cap c.pos = c₁.pos := by rw [goesTo, at_]
    rw [ih sound₁ rest, List.range_succ_eq_map, List.map_cons, List.map_map, Function.iterate_zero_apply, here, ← there]
    rfl

/-- What is returned begins inside of the file. -/
theorem lt_of_returnsAt {pos : Nat} (some : (returnsAt file cap pos).isSome) : pos < file.length := by
  by_contra outside
  have none : nextOf (fieldAt file cap) pos = .ok (pos, none) := by
    have away : fieldAt file cap pos 8 = .ok (pos, Option.none) := if_neg (by omega)
    rw [nextOf, away]
    rfl
  rw [returnsAt, none] at some
  cases some

/-! ## When reading ends, and stays inside the buffer -/

/-- However often `Next` is called, the offset is inside, only bytes in the buffer are read, and no more tuples are
returned than the file has bytes. -/
def StaysInside (file : List UInt8) (cap : Nat) : Prop :=
  ∀ reader, openRead (some file) cap = .ok reader → ∀ n, ∃ s found,
    Singa.steps watchedNext n reader = .ok (s, found) ∧ (found.filter Option.isSome).length ≤ file.length

/-- No length leads before the buffer or out of the range of `int`, and no two tuples begin at one position. -/
structure Orderly (file : List UInt8) (cap : Nat) : Prop where
  inside : ∀ n, ∃ c found, Singa.steps (Cursor.next file cap) n Cursor.start = .ok (c, found)
  once : ∀ i j, (returnsAt file cap ((goesTo file cap)^[i] 0)).isSome →
    (goesTo file cap)^[i] 0 = (goesTo file cap)^[j] 0 → i = j

theorem returned_eq_visits (file : List UInt8) (cap n : Nat) :
    (((List.range n).map fun i => returnsAt file cap ((goesTo file cap)^[i] 0)).filter Option.isSome).length =
      visits (goesTo file cap) 0 (fun pos => (returnsAt file cap pos).isSome) n := by
  induction n with
  | zero => rfl
  | succ n ih =>
    rw [List.range_succ, List.map_append, List.filter_append, List.length_append, ih, visits_succ]
    congr 1
    rw [List.map_singleton, List.filter_singleton]
    cases returnsAt file cap ((goesTo file cap)^[n] 0) with
    | none => rfl
    | some t => rfl

theorem orderly_of_staysInside (stays : StaysInside file cap) : Orderly file cap := by
  have h := Holds.opened file cap ∅
  constructor
  · intro n
    obtain ⟨s, found, run, -⟩ := stays _ rfl n
    obtain ⟨c, walk⟩ := (h.steps n found).mp ⟨s, run⟩
    exact ⟨c, found, walk⟩
  · have bounded : ∀ n, visits (goesTo file cap) 0 (fun pos => (returnsAt file cap pos).isSome) n ≤ file.length := by
      intro n
      obtain ⟨s, found, run, few⟩ := stays _ rfl n
      obtain ⟨c, walk⟩ := (h.steps n found).mp ⟨s, run⟩
      rw [Cursor.steps_returns Cursor.start_sound walk] at few
      exact (returned_eq_visits file cap n).symm.trans_le few
    intro i j here same
    exact once_of_visits_le bounded i j here same

theorem Orderly.staysInside (orderly : Orderly file cap) : StaysInside file cap := by
  intro reader opens n
  cases opens
  have h := Holds.opened file cap ∅
  obtain ⟨c, found, walk⟩ := orderly.inside n
  obtain ⟨s, run⟩ := (h.steps n found).mpr ⟨c, walk⟩
  refine ⟨s, found, run, ?_⟩
  have inFile : ∀ pos, (returnsAt file cap pos).isSome → pos ∈ Finset.range file.length :=
    fun pos some => Finset.mem_range.mpr (lt_of_returnsAt some)
  have few := visits_le_card inFile orderly.once n
  rw [Finset.card_range] at few
  rw [Cursor.steps_returns Cursor.start_sound walk]
  exact (returned_eq_visits file cap n).trans_le few

/-- **Reading a file ends and stays inside the buffer** exactly if no length leads astray and no two tuples begin at
one position. -/
theorem staysInside_iff_orderly (file : List UInt8) (cap : Nat) : StaysInside file cap ↔ Orderly file cap :=
  ⟨orderly_of_staysInside, Orderly.staysInside⟩

/-- A cursor that lengths cannot move backwards. -/
def Cursor.forwardField (file : List UInt8) (cap : Nat) (c : Cursor) (size : Int) :
    Run (Cursor × Option (List UInt8)) :=
  if size < 0 then .error .range else c.field file cap size

theorem Cursor.forwardField_spec {bytes : Option (List UInt8)} {c' : Cursor} (sound : c.Sound file cap)
    (run : c.forwardField file cap size = .ok (c', bytes)) :
    0 ≤ size ∧ c.field file cap size = .ok (c', bytes) ∧ c'.Sound file cap ∧
      (c'.pos : Int) = c.pos + if bytes.isSome then size else 0 := by
  unfold forwardField at run
  split at run
  · cases run
  · next forward =>
    obtain ⟨pos, at_, rfl, sound'⟩ := Cursor.field_position c c.pos size ⟨rfl, sound⟩ c' bytes run
    unfold fieldAt at at_
    refine ⟨by omega, run, sound', ?_⟩
    split at at_
    · obtain ⟨pos, rfl⟩ := Prod.mk.inj (Except.ok.inj at_)
      rw [← pos, Option.isSome_some, if_pos rfl]
      omega
    · obtain ⟨pos, rfl⟩ := Prod.mk.inj (Except.ok.inj at_)
      simp [← pos]

/-- `Next` goes forward then, and takes at least a length when it returns something. -/
theorem Cursor.forward_next {c' : Cursor} {t : Option Tuple} (sound : c.Sound file cap)
    (run : nextOf (forwardField file cap) c = .ok (c', t)) : c.pos ≤ c'.pos ∧ (t.isSome → c.pos < c'.pos) := by
  obtain ⟨⟨c₁, keylen⟩, run₁, run⟩ := Run.do_ok.mp run
  obtain ⟨-, -, sound₁, pos₁⟩ := forwardField_spec sound run₁
  cases keylen with
  | none =>
    cases run
    simpa using pos₁.ge
  | some keylen =>
    obtain ⟨⟨c₂, key⟩, run₂, run⟩ := Run.do_ok.mp run
    obtain ⟨keySize, -, sound₂, pos₂⟩ := forwardField_spec sound₁ run₂
    simp only [Option.isSome_some, if_true] at pos₁
    cases key with
    | none =>
      cases run
      simp only [Option.isSome_none, Bool.false_eq_true, if_false] at pos₂
      omega
    | some key =>
      obtain ⟨⟨c₃, vallen⟩, run₃, run⟩ := Run.do_ok.mp run
      obtain ⟨-, -, sound₃, pos₃⟩ := forwardField_spec sound₂ run₃
      simp only [Option.isSome_some, if_true] at pos₂
      cases vallen with
      | none =>
        cases run
        simp only [Option.isSome_none, Bool.false_eq_true, if_false] at pos₃
        omega
      | some vallen =>
        obtain ⟨⟨c₄, val⟩, run₄, run⟩ := Run.do_ok.mp run
        obtain ⟨valSize, -, -, pos₄⟩ := forwardField_spec sound₃ run₄
        simp only [Option.isSome_some, if_true] at pos₃
        cases val with
        | none =>
          cases run
          simp only [Option.isSome_none, Bool.false_eq_true, if_false] at pos₄
          omega
        | some val =>
          cases run
          simp only [Option.isSome_some, if_true] at pos₄
          omega

theorem Cursor.forward_followed (c c' : Cursor) (size : Int) (same : c = c') :
    Followed Eq (c.forwardField file cap size) (c'.field file cap size) := by
  subst same
  unfold forwardField
  split
  · exact Followed.error _ _
  · intro c' bytes run
    exact ⟨c', run, rfl⟩

/-- Positions that `Next` comes to going forward only. -/
theorem Cursor.forward_positions {n : Nat} {r : Cursor × List (Option Tuple)} (sound : c.Sound file cap)
    (run : Singa.steps (nextOf (forwardField file cap)) n c = .ok r) (i : Nat) (lt : i < n) :
    (goesTo file cap)^[i] c.pos ≤ (goesTo file cap)^[i + 1] c.pos ∧
      ((returnsAt file cap ((goesTo file cap)^[i] c.pos)).isSome →
        (goesTo file cap)^[i] c.pos < (goesTo file cap)^[i + 1] c.pos) := by
  induction n generalizing c r i with
  | zero => omega
  | succ n ih =>
    obtain ⟨⟨c₁, t⟩, first, run⟩ := Run.do_ok.mp run
    obtain ⟨_, rest, _⟩ := Run.do_ok.mp run
    obtain ⟨c₂, walk, rfl⟩ := followed_nextOf Cursor.forward_followed c c rfl c₁ t first
    obtain ⟨pos, at_, rfl, sound₁⟩ := followed_nextOf Cursor.field_position c c.pos ⟨rfl, sound⟩ c₁ t walk
    have here : returnsAt file cap c.pos = t := by rw [returnsAt, at_]
    have there : goesTo file cap c.pos = c₁.pos := by rw [goesTo, at_]
    cases i with
    | zero =>
      rw [Function.iterate_zero_apply, Function.iterate_succ_apply', Function.iterate_zero_apply, here, there]
      exact forward_next sound first
    | succ i =>
      rw [Function.iterate_succ_apply, Function.iterate_succ_apply, there]
      exact ih sound₁ rest i (by omega)

/-- **Files whose lengths are not negative** and stay in the range of `int` are read as they should be. -/
theorem Orderly.of_forward
    (forward : ∀ n, ∃ r, Singa.steps (nextOf (Cursor.forwardField file cap)) n Cursor.start = .ok r) :
    Orderly file cap := by
  have each (i : Nat) : (goesTo file cap)^[i] 0 ≤ (goesTo file cap)^[i + 1] 0 ∧
      ((returnsAt file cap ((goesTo file cap)^[i] 0)).isSome →
        (goesTo file cap)^[i] 0 < (goesTo file cap)^[i + 1] 0) := by
    obtain ⟨r, run⟩ := forward (i + 1)
    exact Cursor.forward_positions Cursor.start_sound run i (Nat.lt_succ_self i)
  have mono : Monotone fun i => (goesTo file cap)^[i] 0 := monotone_nat_of_le_succ fun i => (each i).1
  have apart : ∀ i j, i < j → (returnsAt file cap ((goesTo file cap)^[i] 0)).isSome →
      (goesTo file cap)^[i] 0 ≠ (goesTo file cap)^[j] 0 := by
    intro i j lt here
    have past : (goesTo file cap)^[i + 1] 0 ≤ (goesTo file cap)^[j] 0 := mono lt
    exact ((each i).2 here |>.trans_le past).ne
  constructor
  · intro n
    obtain ⟨⟨c, found⟩, run⟩ := forward n
    obtain ⟨c', walk, -⟩ := Followed.steps (followed_nextOf Cursor.forward_followed) n rfl c found run
    exact ⟨c', found, walk⟩
  · exact once_of_apart (P := fun p => (returnsAt file cap p).isSome) apart

/-- A file of eight bytes that are the length -8: `Next` returns an empty tuple, and goes back. -/
theorem negative_length_not_inside : ¬ StaysInside [0xf8, 0xff, 0xff, 0xff, 0xff, 0xff, 0xff, 0xff] 8 := by
  intro stays
  have once := (orderly_of_staysInside stays).once 0 1 (by decide) (by decide)
  cases once

end DataShard
end Singa
