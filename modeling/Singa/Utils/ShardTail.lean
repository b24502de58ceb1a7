import Singa.Utils.ShardAppend
import Singa.Utils.ShardWalk

/-!
# A file that was cut off, read and counted

`Next` stops at the first field of a tuple that is not there, or is larger than
the buffer, and the bytes that are left of it stay in the buffer: the next call
takes them for lengths. `Count` seeks over keys and values instead, so it does
not see where a value ends.
-/

namespace Singa
set_option autoImplicit false

namespace DataShard

variable {file rest : List UInt8} {cap o b m : Nat} {ks : List Nat} {s : DataShard} {t : Tuple}

/-! ## Calls behind the last tuple -/

/-- In the bytes that are left `Next` never comes to a tuple, and to no length that leads before them or out of the
range of `int`. -/
def Barren (left : List UInt8) (cap : Nat) : Prop :=
  Yields (Cursor.next left cap) ⟨0, 0, min cap left.length⟩ fun _ => none

/-- Fewer bytes than a length has make no tuple. -/
theorem barren_of_short {left : List UInt8} (short : left.length < 8) : Barren left cap := by
  apply Yields.of_fixed
  have field : Cursor.field left cap ⟨0, 0, min cap left.length⟩ 8 = .ok (⟨0, 0, min cap left.length⟩, none) := by
    have kept : Cursor.slide left cap ⟨0, 0, min cap left.length⟩ 8 = ⟨0, 0, min cap left.length⟩ := by
      unfold Cursor.slide
      rw [if_pos (by simp only; omega), Nat.zero_add]
    unfold Cursor.field
    rw [kept]
    simp only [addInt]
    rw [if_pos (by omega)]
    show (if _ then _ else _) = _
    rw [if_pos (by omega)]
  unfold Cursor.next nextOf
  rw [field]
  rfl

/-- **After a call that returned nothing** the calls go on in the bytes that are left. -/
theorem Reading.yields_left {left : List UInt8} (h : Reading file cap 0 (min cap left.length) s left) :
    (Yields DataShard.next s fun _ => none) ↔ Barren left cap := by
  have size : 0 + left.length ≤ file.length := h.behind
  have holds : Holds left cap s ⟨0, 0, min (0 + cap) left.length⟩ := by
    apply Holds.of_reading (Nat.zero_le _) h
    omega
  rw [Nat.zero_add] at holds
  exact holds.yields_none

variable {ts us : List Tuple} {n : Nat}

/-- No sum of an offset and a length is too large for an `int`, up to the cut. -/
def Fluent (ts : List Tuple) (n cap : Nat) : Prop :=
  SumsFit cap 0 0 ((encodeAll ts).take n).length ((complete ts n).flatMap Tuple.lengths ++ lastLengths ts n)

/-- In a file of less than 2 GiB. -/
theorem Fluent.of_file (small : (encodeAll ts).length + 8 < 2 ^ 31) : Fluent ts n cap := by
  apply SumsFit.of_sum
  rw [List.sum_append, lengths_sum_encodeAll]
  have file := congrArg List.length (cut_eq ts n)
  have cut := List.length_take_le' n (encodeAll ts)
  rw [List.length_append] at file
  unfold lastLengths
  cases found : tornTuple ts n with
  | none =>
    simp only [List.sum_cons, List.sum_nil]
    omega
  | some t =>
    obtain ⟨rest, split⟩ := tornTuple_split found
    have total := congrArg (fun us => (encodeAll us).length) split
    have cons : encodeAll (t :: rest) = t.encode ++ encodeAll rest := rfl
    simp only [encodeAll_append, List.length_append, cons, t.encode_length] at total
    simp only [t.lengths_sum]
    omega

/-- With a buffer that has less than 2 GiB together with each of the fields. -/
theorem Fluent.of_buffer (small : cap + 8 < 2 ^ 31) (each : ∀ t ∈ ts, ∀ f ∈ t.fields, cap + f.length < 2 ^ 31) :
    Fluent ts n cap := by
  have known : ∀ t ∈ ts, ∀ k ∈ t.lengths, cap + k < 2 ^ 31 := by
    intro t mem k here
    obtain ⟨f, known, rfl⟩ := List.mem_map.mp here
    exact each t mem f known
  apply SumsFit.of_cap (Nat.zero_le _) (Nat.zero_le _)
  intro k mem
  rcases List.mem_append.mp mem with mem | mem
  · obtain ⟨t, done, here⟩ := List.mem_flatMap.mp mem
    exact known t (complete_subset ts n done) k here
  · unfold lastLengths at mem
    rcases torn_cases ts n with ⟨none, -⟩ | ⟨t, m, found, here, -⟩
    · rw [none] at mem
      obtain rfl := List.mem_singleton.mp mem
      exact small
    · rw [found] at mem
      exact known t here k mem

/-- Calls of `Next` get the tuples, and what comes behind them. -/
theorem Reading.yields_iff {left : List UInt8} {Q : Prop} (nonempty : ∀ t ∈ us, t.val ≠ [])
    (ints : ∀ t ∈ us, ∀ f ∈ t.fields, f.length < 2 ^ 31)
    (ends : ∀ o b s, Reading file cap o b s left →
      ((Yields DataShard.next s fun _ => none) ↔ SumsFit cap o b left.length ks ∧ Q))
    (h : Reading file cap o b s (encodeAll us ++ left)) :
    (Yields DataShard.next s fun i => us[i]?) ↔ (∀ t ∈ us, Holdable cap t) ∧
      SumsFit cap o b (encodeAll us ++ left).length (us.flatMap Tuple.lengths ++ ks) ∧ Q := by
  induction us generalizing s o b with
  | nil =>
    simp only [List.getElem?_nil, List.not_mem_nil, false_imp_iff, implies_true, true_and]
    exact ends o b s h
  | cons t us ih =>
    have cons : encodeAll (t :: us) ++ left = t.encode ++ (encodeAll us ++ left) := List.append_assoc ..
    rw [cons] at h ⊢
    rw [Singa.yields_iff, List.forall_mem_cons, List.flatMap_cons, List.append_assoc]
    simp only [List.getElem?_cons_zero, List.getElem?_cons_succ]
    rcases h.next_whole_cases (nonempty t List.mem_cons_self) (ints t List.mem_cons_self) with
      ⟨fits, o', b', s', run, h', sums⟩ | ⟨misfits, s', -, run, -⟩ | ⟨run, none⟩
    · have rest := ih (fun u mem => nonempty u (List.mem_cons_of_mem _ mem))
        (fun u mem => ints u (List.mem_cons_of_mem _ mem)) h'
      rw [sums, and_assoc, ← rest, and_iff_right fits]
      constructor
      · rintro ⟨s'', first, yields⟩
        rw [run] at first
        cases first
        exact yields
      · intro yields
        exact ⟨s', run, yields⟩
    · apply iff_of_false
      · rintro ⟨s'', first, -⟩
        rw [run] at first
        cases first
      · rintro ⟨⟨fits, -⟩, -⟩
        exact misfits fits
    · apply iff_of_false
      · rintro ⟨s'', first, -⟩
        rw [run] at first
        cases first
      · rintro ⟨-, sums, -⟩
        exact none _ sums

/-! ## An incomplete tail is never read as data -/

/-- Calls of `Next` return the complete tuples in order, and nothing for ever after. -/
def ReadsComplete (ts : List Tuple) (n cap : Nat) : Prop :=
  ∀ reader, openRead (some ((encodeAll ts).take n)) cap = .ok reader → Yields next reader fun i => (complete ts n)[i]?

/-- **The bytes of a tuple that was cut off** are not read as data exactly if they make no tuple themselves, from the
field on that the cut falls into. -/
theorem readsComplete_iff_barren (ts : List Tuple) (n cap : Nat) (nonempty : ∀ t ∈ ts, t.val ≠ [])
    (ints : ∀ t ∈ ts, ∀ f ∈ t.fields, f.length < 2 ^ 31) : ReadsComplete ts n cap ↔
      (∀ t ∈ complete ts n, Holdable cap t) ∧ Fluent ts n cap ∧ Barren (tail ts n cap) cap := by
  have start := Reading.opened ((encodeAll ts).take n) cap ∅
  have file : (encodeAll ts).take n = encodeAll (complete ts n) ++ torn ts n := cut_eq ts n
  have ends : ∀ o b s, Reading ((encodeAll ts).take n) cap o b s (torn ts n) →
      ((Yields DataShard.next s fun _ => none) ↔
        SumsFit cap o b (torn ts n).length (lastLengths ts n) ∧ Barren (tail ts n cap) cap) := by
    intro o b s h
    rw [Singa.yields_iff]
    rcases h.next_torn_cases nonempty ints with ⟨sums, s', run, h'⟩ | ⟨none, run⟩
    · rw [and_iff_right sums, ← h'.yields_left, run]
      constructor
      · rintro ⟨s'', first, yields⟩
        cases first
        exact yields
      · intro yields
        exact ⟨s', rfl, yields⟩
    · apply iff_of_false
      · rintro ⟨s'', first, -⟩
        rw [run] at first
        cases first
      · rintro ⟨sums, -⟩
        exact none sums
  nth_rewrite 3 [file] at start
  have whole := Reading.yields_iff (fun t mem => nonempty t (complete_subset ts n mem))
    (fun t mem => ints t (complete_subset ts n mem)) ends start
  rw [← file] at whole
  rw [Fluent, ← whole]
  constructor
  · intro reads
    exact reads _ rfl
  · intro yields reader opens
    cases opens
    exact yields

/-- The first of two tuples, and six bytes of the second one. -/
theorem readsComplete_of_six_bytes : ReadsComplete written 25 8 := by
  refine (readsComplete_iff_barren written 25 8 (by decide) (by decide)).mpr
    ⟨?_, .of_file (by decide), barren_of_short (by decide)⟩
  simp only [holdable_iff]
  decide

/-- A tuple with a value that holds a tuple. -/
def nested : List Tuple := [⟨[], (⟨[], [7]⟩ : Tuple).encode ++ [9]⟩]

/-- The last byte of the value was cut off, and the second call returns the tuple in the value. -/
theorem nested_read_as_data : ¬ ReadsComplete nested 33 18 := by
  intro reads
  obtain ⟨s, run⟩ := reads _ rfl 2
  have second : (Singa.steps next 2 (opened .kRead (Stream.opened ((encodeAll nested).take 33) 0) ∅ 18)).map Prod.snd =
      .ok [none, some ⟨[], [7]⟩] := by
    decide +kernel
  rw [run] at second
  cases second

/-! ## Counting -/

/-- One pass of the loop of `Count`: the stream behind the tuple, or a break. -/
def countTuple (fin : Stream) : Option Stream :=
  let (bytes, fin) := fin.read 8
  if fin.good then
    let fin := fin.skip (Bytes.toNat bytes)
    if fin.good then
      let (bytes, fin) := fin.read 8
      if fin.good then
        let fin := fin.skip (Bytes.toNat bytes)
        if fin.good then some fin else none
      else none
    else none
  else none

/-- The loop of `Count`. -/
def countTuples : Nat → Stream → Int → Run Int
  | 0, _, _ => .error .fuel
  | fuel + 1, fin, count =>
    match countTuple fin with
    | none => .ok count
    | some fin => do
      let count ← addInt count 1
      countTuples fuel fin count

/-- `DataShard::Count` of the file that is open. -/
def count (s : DataShard) : Run Int := countTuples (s.fdat.bytes.length + 1) (Stream.opened s.fdat.bytes 0) 0

variable {fin : Stream} {pos : Nat}

/-- A pass over a tuple whose value may be cut off. -/
theorem countTuple_found (key : t.key.length < 2 ^ 63) (val : t.val.length < 2 ^ 63)
    (h : At file fin pos ((t.encode ++ rest).take m)) (value : t.key.length + 16 ≤ m) :
    ∃ fin', countTuple fin = some fin' ∧ At file fin' (pos + t.size) (((t.encode ++ rest).take m).drop t.size) := by
  have keylen : Bytes.toNat (Bytes.ofNat 8 t.key.length) = t.key.length := Bytes.toNat_ofNat (by omega)
  have vallen : Bytes.toNat (Bytes.ofNat 8 t.val.length) = t.val.length := Bytes.toNat_ofNat (by omega)
  have front := encode_take t rest value
  have eight (n : Nat) : (Bytes.ofNat 8 n).length = 8 := Bytes.ofNat_length 8 n
  rw [front] at h ⊢
  obtain ⟨fin₁, run₁, h₁⟩ := h.read
  have h₂ := h₁.skip t.key.length
  rw [List.drop_left] at h₂
  obtain ⟨fin₃, run₃, h₃⟩ := h₂.read
  have h₄ := h₃.skip t.val.length
  rw [eight] at run₁ run₃
  refine ⟨fin₃.skip t.val.length, ?_, h₄.good, h₄.bytes, ?_, ?_⟩
  · simp only [countTuple, run₁, h₁.good, if_true, keylen, h₂.good, run₃, h₃.good, vallen, h₄.good]
  · rw [h₄.pos, eight, eight, Tuple.size]
    omega
  · have lengths : t.size = (Bytes.ofNat 8 t.key.length).length +
        (t.key.length + ((Bytes.ofNat 8 t.val.length).length + t.val.length)) := by
      simp only [eight, Tuple.size]
      omega
    rw [h₄.rest, lengths, Bytes.drop_behind, Bytes.drop_behind, Bytes.drop_behind]

/-- A pass over a tuple that was cut before its value breaks the loop: the seek over the key ends behind the file. -/
theorem countTuple_torn (key : t.key.length < 2 ^ 63) (h : At file fin pos (t.encode.take m))
    (cut : m < t.key.length + 16) : countTuple fin = none := by
  have keylen : Bytes.toNat (Bytes.ofNat 8 t.key.length) = t.key.length := Bytes.toNat_ofNat (by omega)
  have eight (n : Nat) : (Bytes.ofNat 8 n).length = 8 := Bytes.ofNat_length 8 n
  simp only [Tuple.encode, List.append_assoc] at h
  by_cases inLength : m < 8
  · obtain ⟨got, fin', run, bad⟩ := h.read_short (n := 8) (by rw [List.length_take]; omega)
    simp only [countTuple, run, bad, Bool.false_eq_true, if_false]
  · obtain ⟨m, rfl⟩ : ∃ k, m = (Bytes.ofNat 8 t.key.length).length + k := ⟨m - 8, by rw [eight]; omega⟩
    rw [Bytes.take_behind] at h
    rw [eight] at cut
    obtain ⟨fin₁, run₁, h₁⟩ := h.read
    have h₂ := h₁.skip t.key.length
    obtain ⟨got, fin', run, bad⟩ := h₂.read_short (n := 8) (by rw [List.length_drop, List.length_take]; omega)
    rw [eight] at run₁
    simp only [countTuple, run₁, h₁.good, if_true, keylen, h₂.good, run, bad, Bool.false_eq_true, if_false]

theorem countTuple_end (h : At file fin pos []) : countTuple fin = none := by
  obtain ⟨got, fin', run, bad⟩ := h.read_short (n := 8) (by simp)
  simp only [countTuple, run, bad, Bool.false_eq_true, if_false]

theorem countTuples_found {fin' : Stream} (run : countTuple fin = some fin') (fuel : Nat) (k : Int) :
    countTuples (fuel + 1) fin k = (addInt k 1).bind (countTuples fuel fin') := by
  rw [countTuples, run]
  rfl

/-- One pass over a complete tuple. -/
theorem countTuples_cons (key : t.key.length < 2 ^ 63) (val : t.val.length < 2 ^ 63)
    (h : At file fin pos (t.encode ++ rest)) (fuel : Nat) (k : Int) : ∃ fin', At file fin' (pos + t.size) rest ∧
      countTuples (fuel + 1) fin k = (addInt k 1).bind (countTuples fuel fin') := by
  have whole : t.encode ++ rest = (t.encode ++ rest).take (t.encode.length + rest.length) := by
    rw [Bytes.take_behind, List.take_length]
  rw [whole] at h
  obtain ⟨fin', run, h'⟩ := countTuple_found key val h (by
    rw [t.encode_length, Tuple.size]
    omega)
  rw [Bytes.take_behind, List.take_length, ← t.encode_length, List.drop_left, t.encode_length] at h'
  exact ⟨fin', h', countTuples_found run fuel k⟩

theorem addInt_one {k : Nat} (int : k + 1 < 2 ^ 31) : addInt (k : Int) 1 = .ok ((k + 1 : Nat) : Int) := by
  rw [addInt_ok (by omega) (by omega)]
  push_cast
  rfl

theorem addInt_one_overflow {k : Nat} (wide : ¬ k + 1 < 2 ^ 31) : addInt (k : Int) 1 = .error .overflow := by
  unfold addInt
  rw [if_neg (by omega)]

variable {done : List Tuple}

/-- **The loop over complete tuples** counts them. -/
theorem countTuples_complete (small : ∀ t ∈ done, t.key.length < 2 ^ 63 ∧ t.val.length < 2 ^ 63) (fuel : Nat)
    (h : At file fin pos (encodeAll done ++ rest)) {k : Nat} (int : k + done.length < 2 ^ 31) :
    ∃ fin', At file fin' (pos + (encodeAll done).length) rest ∧
      countTuples (done.length + fuel) fin k = countTuples fuel fin' (k + done.length : Nat) := by
  induction done generalizing fin pos k with
  | nil => exact ⟨fin, h, by rw [List.length_nil, Nat.zero_add, Nat.add_zero]⟩
  | cons t done ih =>
    have cons : encodeAll (t :: done) = t.encode ++ encodeAll done := rfl
    obtain ⟨key, val⟩ := small t List.mem_cons_self
    rw [cons, List.append_assoc] at h
    rw [List.length_cons] at int
    obtain ⟨fin₁, h₁, run⟩ := countTuples_cons key val h (done.length + fuel) k
    obtain ⟨fin₂, h₂, rest⟩ := ih (fun u mem => small u (List.mem_cons_of_mem _ mem)) h₁
      (show k + 1 + done.length < 2 ^ 31 by omega)
    have length : (t :: done).length + fuel = (done.length + fuel) + 1 := by
      rw [List.length_cons]
      omega
    have total : k + (done.length + 1) = k + 1 + done.length := by omega
    refine ⟨fin₂, ?_, ?_⟩
    · rwa [cons, List.length_append, t.encode_length, ← Nat.add_assoc]
    · rw [length, run, addInt_one (by omega), List.length_cons, total]
      exact rest

/-- More tuples than an `int` can count. -/
theorem countTuples_overflow (small : ∀ t ∈ done, t.key.length < 2 ^ 63 ∧ t.val.length < 2 ^ 63) (fuel : Nat)
    (h : At file fin pos (encodeAll done ++ rest)) {k : Nat} (int : k < 2 ^ 31) (many : 2 ^ 31 ≤ k + done.length) :
    countTuples (done.length + fuel) fin k = .error .overflow := by
  -- the first tuples are counted up to the largest `int`, and the next one is one too many
  obtain ⟨m, full⟩ : ∃ m, k + m + 1 = 2 ^ 31 := ⟨2 ^ 31 - 1 - k, by omega⟩
  obtain ⟨counted, t, left, rfl, size⟩ : ∃ counted t left, done = counted ++ t :: left ∧ counted.length = m :=
    ⟨done.take m, done[m], done.drop (m + 1), by simp, List.length_take_of_le (by omega)⟩
  obtain ⟨key, val⟩ := small t (List.mem_append_right _ List.mem_cons_self)
  have first : encodeAll (counted ++ t :: left) ++ rest = encodeAll counted ++ (t.encode ++ (encodeAll left ++ rest)) := by
    simp [encodeAll]
  rw [first] at h
  obtain ⟨fin₁, h₁, run⟩ := countTuples_complete (fun u mem => small u (List.mem_append_left _ mem))
    (left.length + fuel + 1) h (show k + counted.length < 2 ^ 31 by omega)
  obtain ⟨fin₂, -, more⟩ := countTuples_cons key val h₁ (left.length + fuel) (k + counted.length : Nat)
  have length : (counted ++ t :: left).length + fuel = counted.length + (left.length + fuel + 1) := by
    rw [List.length_append, List.length_cons]
    omega
  rw [length, run, more, addInt_one_overflow (by omega)]
  rfl

/-- What `Count` makes of the tuple that was cut. -/
def cutCount (ts : List Tuple) (n : Nat) : Nat :=
  match tornTuple ts n with
  | none => 0
  | some t => if t.key.length + 16 ≤ (torn ts n).length then 1 else 0

theorem cutCount_of_value (found : tornTuple ts n = some t) (value : t.key.length + 16 ≤ (torn ts n).length) :
    cutCount ts n = 1 := by
  unfold cutCount
  simp only [found, value, if_true]

theorem cutCount_of_torn (found : tornTuple ts n = some t) (cut : ¬ t.key.length + 16 ≤ (torn ts n).length) :
    cutCount ts n = 0 := by
  unfold cutCount
  simp only [found, cut, if_false]

theorem cutCount_eq_zero : cutCount ts n = 0 ↔ ¬ CutInValue ts n := by
  unfold cutCount CutInValue
  cases found : tornTuple ts n with
  | none => simp
  | some t => simp

/-- **The loop at the place of the cut**: one more tuple is counted where its value had begun. -/
theorem countTuples_torn (small : ∀ t ∈ ts, t.key.length < 2 ^ 63 ∧ t.val.length < 2 ^ 63)
    (h : At file fin pos (torn ts n)) {fuel : Nat} (enough : (torn ts n).length < fuel) {k : Nat} (int : k < 2 ^ 31) :
    countTuples fuel fin k =
      if k + cutCount ts n < 2 ^ 31 then .ok ((k + cutCount ts n : Nat) : Int) else .error .overflow := by
  obtain ⟨fuel, rfl⟩ : ∃ k, fuel = k + 1 := ⟨fuel - 1, by omega⟩
  rcases torn_cases ts n with ⟨none, nothing⟩ | ⟨t, m, found, mem, lt, left⟩
  · have zero : cutCount ts n = 0 := by
      unfold cutCount
      rw [none]
    rw [nothing] at h
    rw [zero, if_pos (show k + 0 < 2 ^ 31 from int), countTuples, countTuple_end h]
    rfl
  · have length : (torn ts n).length = m := by
      rw [left, List.length_take, t.encode_length]
      omega
    obtain ⟨key, val⟩ := small t mem
    by_cases value : t.key.length + 16 ≤ m
    · rw [cutCount_of_value found (length.symm ▸ value)]
      have whole : torn ts n = (t.encode ++ []).take m := by rw [left, List.append_nil]
      rw [whole] at h
      obtain ⟨fin', run, h'⟩ := countTuple_found key val h value
      have nothing : ((t.encode ++ []).take m).drop t.size = [] := by
        apply List.drop_eq_nil_of_le
        rw [List.length_take]
        omega
      rw [nothing] at h'
      rw [countTuples_found run]
      by_cases last : k + 1 < 2 ^ 31
      · obtain ⟨fuel, rfl⟩ : ∃ k, fuel = k + 1 := ⟨fuel - 1, by omega⟩
        rw [addInt_one last, if_pos last]
        show countTuples (fuel + 1) fin' ((k + 1 : Nat) : Int) = _
        rw [countTuples, countTuple_end h']
      · rw [addInt_one_overflow last, if_neg last]
        rfl
    · rw [cutCount_of_torn found (length.symm ▸ value), if_pos (show k + 0 < 2 ^ 31 from int)]
      rw [left] at h
      rw [countTuples, countTuple_torn key h (by omega)]
      rfl

/-- **`Count`** of a file that was cut off. -/
theorem count_cut (small : ∀ t ∈ ts, t.key.length < 2 ^ 63 ∧ t.val.length < 2 ^ 63)
    (file : s.fdat.bytes = (encodeAll ts).take n) : s.count =
      if (complete ts n).length + cutCount ts n < 2 ^ 31 then .ok (((complete ts n).length + cutCount ts n : Nat) : Int)
      else .error .overflow := by
  have cut := cut_eq ts n
  have few := length_le_encodeAll (complete ts n)
  have all : ∀ t ∈ complete ts n, t.key.length < 2 ^ 63 ∧ t.val.length < 2 ^ 63 :=
    fun t mem => small t (complete_subset ts n mem)
  have start : At s.fdat.bytes (Stream.opened s.fdat.bytes 0) 0 (encodeAll (complete ts n) ++ torn ts n) :=
    ⟨rfl, rfl, rfl, file.trans cut⟩
  have total := congrArg List.length cut
  rw [List.length_append, ← file] at total
  unfold count
  by_cases int : (complete ts n).length < 2 ^ 31
  · obtain ⟨fin, h, run⟩ := countTuples_complete all (s.fdat.bytes.length + 1 - (complete ts n).length) start
      (show 0 + (complete ts n).length < 2 ^ 31 by rwa [Nat.zero_add])
    have fuel : s.fdat.bytes.length + 1 = (complete ts n).length + (s.fdat.bytes.length + 1 - (complete ts n).length) := by
      omega
    rw [Nat.cast_zero, Nat.zero_add] at run
    rw [fuel, run]
    exact countTuples_torn small h (by omega) int
  · have fuel : s.fdat.bytes.length + 1 = (complete ts n).length + (s.fdat.bytes.length + 1 - (complete ts n).length) := by
      omega
    have full := countTuples_overflow all (s.fdat.bytes.length + 1 - (complete ts n).length) start
      (show 0 < 2 ^ 31 by decide) (by omega)
    rw [Nat.cast_zero] at full
    rw [fuel, full, if_neg (by omega)]

/-- `Count` says how many tuples `Next` returns before it returns nothing. -/
def CountsRead (ts : List Tuple) (n cap : Nat) : Prop :=
  ∀ reader, openRead (some ((encodeAll ts).take n)) cap = .ok reader →
    ∃ us, (∀ fuel, us.length < fuel → drain fuel reader = .ok us) ∧ reader.count = .ok (us.length : Int)

/-- What is read of a file that was cut off. -/
theorem drain_cut (nonempty : ∀ t ∈ ts, t.val ≠ []) (fits : ∀ t ∈ ts, Holdable cap t) (small : cap < 2 ^ 31)
    (fuel : Nat) (enough : (complete ts n).length < fuel) :
    (Fluent ts n cap ∧
      drain fuel (opened .kRead (Stream.opened ((encodeAll ts).take n) 0) ∅ cap) = .ok (complete ts n)) ∨
    (¬ Fluent ts n cap ∧
      drain fuel (opened .kRead (Stream.opened ((encodeAll ts).take n) 0) ∅ cap) = .error .overflow) := by
  have start := Reading.opened ((encodeAll ts).take n) cap ∅
  have file : (encodeAll ts).take n = encodeAll (complete ts n) ++ torn ts n := cut_eq ts n
  nth_rewrite 3 [file] at start
  have ends : ∀ o b s, Reading ((encodeAll ts).take n) cap o b s (torn ts n) →
      (SumsFit cap o b (torn ts n).length (lastLengths ts n) ∧ ∃ s', s.next = .ok (s', none)) ∨
      (¬ SumsFit cap o b (torn ts n).length (lastLengths ts n) ∧ s.next = .error .overflow) := by
    intro o b s h
    rcases h.next_torn_cases nonempty (ints_of_fits fits small) with ⟨sums, s', run, -⟩ | overflow
    · exact .inl ⟨sums, s', run⟩
    · exact .inr overflow
  have cases := start.drain_cases (fun t mem => nonempty t (complete_subset ts n mem))
    (fun t mem => fits t (complete_subset ts n mem)) small ends fuel enough
  rw [← file] at cases
  exact cases

theorem count_of_cut (fits : ∀ t ∈ ts, Holdable cap t) (small : cap < 2 ^ 31) :
    (opened .kRead (Stream.opened ((encodeAll ts).take n) 0) ∅ cap).count =
      if (complete ts n).length + cutCount ts n < 2 ^ 31 then .ok (((complete ts n).length + cutCount ts n : Nat) : Int)
      else .error .overflow := by
  have lengths : ∀ t ∈ ts, t.key.length < 2 ^ 63 ∧ t.val.length < 2 ^ 63 := by
    intro t mem
    obtain ⟨-, key, val⟩ := holdable_iff.mp (fits t mem)
    omega
  exact count_cut lengths rfl

/-- Where counting agrees with reading. -/
theorem clean_of_countsRead (nonempty : ∀ t ∈ ts, t.val ≠ []) (fits : ∀ t ∈ ts, Holdable cap t) (small : cap < 2 ^ 31)
    (agrees : CountsRead ts n cap) : ¬ CutInValue ts n ∧ (complete ts n).length < 2 ^ 31 ∧ Fluent ts n cap := by
  obtain ⟨us, reads, count⟩ := agrees _ rfl
  have first := reads (max us.length (complete ts n).length + 1) (by omega)
  rcases drain_cut (n := n) nonempty fits small (max us.length (complete ts n).length + 1) (by omega) with
    ⟨fluent, run⟩ | ⟨-, run⟩
  · rw [run] at first
    obtain rfl := Except.ok.inj first
    rw [count_of_cut fits small] at count
    rw [← cutCount_eq_zero]
    split at count
    · have number := Except.ok.inj count
      exact ⟨by omega, by omega, fluent⟩
    · cases count
  · rw [run] at first
    cases first

/-- **Counting agrees with reading** exactly if the cut is not inside a value, and the number of tuples and the sums
of the reader's offset and a length are `int`s. -/
theorem countsRead_iff (ts : List Tuple) (n cap : Nat) (nonempty : ∀ t ∈ ts, t.val ≠ []) (fits : ∀ t ∈ ts, Holdable cap t)
    (small : cap < 2 ^ 31) :
    CountsRead ts n cap ↔ ¬ CutInValue ts n ∧ (complete ts n).length < 2 ^ 31 ∧ Fluent ts n cap := by
  constructor
  · exact clean_of_countsRead nonempty fits small
  · rintro ⟨clean, int, fluent⟩ reader opens
    cases opens
    refine ⟨complete ts n, fun fuel enough => ?_, ?_⟩
    · rcases drain_cut nonempty fits small fuel enough with ⟨-, run⟩ | ⟨none, -⟩
      · exact run
      · exact absurd fluent none
    · rw [count_of_cut fits small, cutCount_eq_zero.mpr clean, Nat.add_zero, if_pos int]

theorem written_holdable : ∀ t ∈ written, Holdable 8 t := by
  simp only [holdable_iff]
  decide

/-- The first of two tuples, and six bytes of the second one. -/
theorem countsRead_of_six_bytes : CountsRead written 25 8 := by
  refine (countsRead_iff written 25 8 (by decide) written_holdable (by decide)).mpr ⟨?_, by decide, .of_file (by decide)⟩
  rw [← cutCount_eq_zero]
  decide

/-- The first byte of the second value: the tuple is counted, but not read. -/
theorem begun_value_counted : ¬ CountsRead written 37 8 := by
  intro agrees
  obtain ⟨clean, -⟩ := clean_of_countsRead (by decide) written_holdable (by decide) agrees
  apply clean
  exact ⟨⟨[108], [3, 4]⟩, by decide, by decide⟩

end DataShard
end Singa
