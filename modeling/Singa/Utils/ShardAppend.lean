import Singa.Utils.ShardRoundTrip

/-!
# Appending to a file that was cut off

A write that was interrupted leaves a file that ends anywhere in the encoding of
its last tuple. `PrepareForAppend` goes from tuple to tuple, reading both lengths
and the key but only seeking over the value, and a seek past the end of the file
succeeds. New tuples overwrite what follows the last tuple that was found; the
rest of a longer tail stays behind them.
-/

namespace Singa
set_option autoImplicit false

namespace DataShard

/-- The tuples that are complete in the first `n` bytes. -/
def complete : List Tuple → Nat → List Tuple
  | [], _ => []
  | t :: ts, n => if t.size ≤ n then t :: complete ts (n - t.size) else []

/-- The tuple that the cut falls into, or comes before. -/
def tornTuple : List Tuple → Nat → Option Tuple
  | [], _ => none
  | t :: ts, n => if t.size ≤ n then tornTuple ts (n - t.size) else some t

/-- What is left of it. -/
def torn : List Tuple → Nat → List UInt8
  | [], _ => []
  | t :: ts, n => if t.size ≤ n then torn ts (n - t.size) else t.encode.take n

variable {ts : List Tuple} {t : Tuple}

theorem cut_eq (ts : List Tuple) (n : Nat) : (encodeAll ts).take n = encodeAll (complete ts n) ++ torn ts n := by
  induction ts generalizing n with
  | nil => simp [encodeAll, complete, torn]
  | cons t ts ih =>
    have cons (ts : List Tuple) : encodeAll (t :: ts) = t.encode ++ encodeAll ts := rfl
    by_cases le : t.size ≤ n
    · rw [complete, torn, if_pos le, if_pos le, cons, cons, List.append_assoc, ← ih, ← t.encode_length]
      rw [← t.encode_length] at le
      rw [List.take_append, List.take_of_length_le le]
    · rw [complete, torn, if_neg le, if_neg le, cons]
      rw [← t.encode_length] at le
      rw [List.take_append_of_le_length (by omega)]
      rfl

theorem complete_subset (ts : List Tuple) (n : Nat) : complete ts n ⊆ ts := by
  induction ts generalizing n with
  | nil => simp [complete]
  | cons t ts ih =>
    rw [complete]
    split
    · exact List.cons_subset_cons t (ih _)
    · simp

/-- The cut leaves a proper part of a tuple, or nothing. -/
theorem torn_cases (ts : List Tuple) (n : Nat) : (tornTuple ts n = none ∧ torn ts n = []) ∨
    ∃ t m, tornTuple ts n = some t ∧ t ∈ ts ∧ m < t.size ∧ torn ts n = t.encode.take m := by
  induction ts generalizing n with
  | nil => exact .inl ⟨rfl, rfl⟩
  | cons t ts ih =>
    by_cases le : t.size ≤ n
    · rw [tornTuple, torn, if_pos le, if_pos le]
      rcases ih (n - t.size) with none | ⟨u, m, found, mem, lt, rest⟩
      · exact .inl none
      · exact .inr ⟨u, m, found, List.mem_cons_of_mem _ mem, lt, rest⟩
    · rw [tornTuple, torn, if_neg le, if_neg le]
      exact .inr ⟨t, n, rfl, List.mem_cons_self, by omega, rfl⟩

/-- The cut tuple follows the complete ones. -/
theorem tornTuple_split {n : Nat} (found : tornTuple ts n = some t) : ∃ rest, ts = complete ts n ++ t :: rest := by
  induction ts generalizing n with
  | nil => cases found
  | cons u ts ih =>
    by_cases le : u.size ≤ n
    · rw [tornTuple, if_pos le] at found
      obtain ⟨rest, split⟩ := ih found
      refine ⟨rest, ?_⟩
      rw [complete, if_pos le, List.cons_append, ← split]
    · rw [tornTuple, if_neg le] at found
      cases found
      refine ⟨ts, ?_⟩
      rw [complete, if_neg le, List.nil_append]

/-- The value of the cut tuple had begun. -/
def CutInValue (ts : List Tuple) (n : Nat) : Prop :=
  ∃ t, tornTuple ts n = some t ∧ t.key.length + 16 ≤ (torn ts n).length

/-! ## `PrepareForAppend` -/

/-- Keys that the buffer of `PrepareForAppend` can hold. -/
structure KeyOk (t : Tuple) : Prop where
  short : t.key.length < 256
  noNul : (0 : UInt8) ∉ t.key
  val : t.val.length < 2 ^ 63

/-- A stream in the middle of a file. -/
structure At (file : List UInt8) (fin : Stream) (pos : Nat) (rest : List UInt8) : Prop where
  good : fin.good
  bytes : fin.bytes = file
  pos : fin.pos = pos
  rest : fin.rest = rest

variable {file rest : List UInt8} {fin : Stream} {pos : Nat}

theorem At.read {field : List UInt8} (h : At file fin pos (field ++ rest)) : ∃ fin',
    fin.read field.length = (field, fin') ∧ At file fin' (pos + field.length) rest := by
  have run := Stream.read_enough h.good (n := field.length) (by rw [h.rest]; simp)
  rw [h.rest, List.take_left] at run
  refine ⟨_, run, h.good, h.bytes, by simp only [h.pos], ?_⟩
  have behind := congrArg (List.drop field.length) h.rest
  rw [List.drop_left, Stream.rest, List.drop_drop] at behind
  exact behind

theorem At.read_short (h : At file fin pos rest) {n : Nat} (lt : rest.length < n) : ∃ got fin',
    fin.read n = (got, fin') ∧ fin'.good = false := by
  rw [← h.rest] at lt
  exact ⟨_, _, Stream.read_short h.good lt, rfl⟩

theorem At.skip (h : At file fin pos rest) (n : Nat) : At file (fin.skip n) (pos + n) (rest.drop n) := by
  have bits : fin.eof = false ∧ fin.fail = false := by simpa [Stream.good] using h.good
  have moved : fin.skip n = { fin with pos := fin.pos + n, eof := false } := by
    simp [Stream.skip, bits.2]
  rw [moved]
  refine ⟨by simp [Stream.good, bits.2], h.bytes, by simp only [h.pos], ?_⟩
  rw [← h.rest, Stream.rest, Stream.rest, List.drop_drop]

/-- `std::string(buf)`: the bytes before the first NUL. -/
def cString (bytes : List UInt8) : List UInt8 := bytes.takeWhile (· ≠ 0)

theorem noNul_cString (bytes : List UInt8) : (0 : UInt8) ∉ cString bytes := by
  intro mem
  have kept := List.mem_takeWhile_imp mem
  simp at kept

theorem cString_of_noNul {bytes : List UInt8} (noNul : (0 : UInt8) ∉ bytes) : cString bytes = bytes := by
  rw [cString, List.takeWhile_eq_self_iff]
  intro byte mem
  simp only [ne_eq, decide_not, Bool.not_eq_true', decide_eq_false_iff_not]
  rintro rfl
  exact noNul mem

/-- A tuple that `PrepareForAppend` gets over, whatever it takes for its key. -/
structure Scannable (t : Tuple) : Prop where
  short : t.key.length < 256
  val : t.val.length < 2 ^ 63

theorem KeyOk.scannable (ok : KeyOk t) : Scannable t := ⟨ok.short, ok.val⟩

theorem KeyOk.cString (ok : KeyOk t) : cString t.key = t.key := cString_of_noNul ok.noNul

/-- A tuple of which at least the lengths and the key are there. -/
theorem encode_take (t : Tuple) (rest : List UInt8) {m : Nat} (value : t.key.length + 16 ≤ m) :
    (t.encode ++ rest).take m = Bytes.ofNat 8 t.key.length ++ (t.key ++ (Bytes.ofNat 8 t.val.length ++
      (t.val ++ rest).take (m - (t.key.length + 16)))) := by
  obtain ⟨k, rfl⟩ : ∃ k, m = 8 + (t.key.length + (8 + k)) := ⟨m - (t.key.length + 16), by omega⟩
  have behind : 8 + (t.key.length + (8 + k)) - (t.key.length + 16) = k := by omega
  have lengths : 8 + (t.key.length + (8 + k)) = (Bytes.ofNat 8 t.key.length).length +
      (t.key.length + ((Bytes.ofNat 8 t.val.length).length + k)) := by simp
  rw [behind, lengths]
  simp only [Tuple.encode, List.append_assoc, Bytes.take_behind]

/-- **A pass over a tuple whose value may be cut off**: the seek does not see it. -/
theorem prepareTuple_found (ok : Scannable t) {m : Nat} (h : At file fin pos ((t.encode ++ rest).take m))
    (value : t.key.length + 16 ≤ m) : ∃ fin', prepareTuple fin = .ok (some (fin', cString t.key)) ∧
      At file fin' (pos + t.size) (((t.encode ++ rest).take m).drop t.size) := by
  have keylen : Bytes.toNat (Bytes.ofNat 8 t.key.length) = t.key.length :=
    Bytes.toNat_ofNat (by have := ok.short; omega)
  have vallen : Bytes.toNat (Bytes.ofNat 8 t.val.length) = t.val.length :=
    Bytes.toNat_ofNat (by have := ok.val; omega)
  have front := encode_take t rest value
  rw [front] at h
  obtain ⟨fin₁, run₁, h₁⟩ := h.read
  obtain ⟨fin₂, run₂, h₂⟩ := h₁.read
  obtain ⟨fin₃, run₃, h₃⟩ := h₂.read
  have h₄ := h₃.skip t.val.length
  rw [Bytes.ofNat_length] at run₁ run₃
  have room : ¬ 256 ≤ t.key.length := by have := ok.short; omega
  refine ⟨fin₃.skip t.val.length, ?_, ?_⟩
  · simp only [prepareTuple, run₁, h₁.good, if_true, keylen, run₂, room, if_false, h₂.good, run₃, h₃.good, vallen,
      h₄.good, cString]
  · rw [front]
    refine ⟨h₄.good, h₄.bytes, ?_, ?_⟩
    · rw [h₄.pos, Bytes.ofNat_length, Bytes.ofNat_length, Tuple.size]
      omega
    · have lengths : t.size = (Bytes.ofNat 8 t.key.length).length +
          (t.key.length + ((Bytes.ofNat 8 t.val.length).length + t.val.length)) := by
        simp only [Bytes.ofNat_length, Tuple.size]
        omega
      rw [h₄.rest, lengths, Bytes.drop_behind, Bytes.drop_behind, Bytes.drop_behind]

/-- A pass over a tuple that was cut before its value breaks the loop. -/
theorem prepareTuple_torn (ok : KeyOk t) {m : Nat} (h : At file fin pos (t.encode.take m))
    (cut : m < t.key.length + 16) : prepareTuple fin = .ok none := by
  have keylen : Bytes.toNat (Bytes.ofNat 8 t.key.length) = t.key.length :=
    Bytes.toNat_ofNat (by have := ok.short; omega)
  have room : ¬ 256 ≤ t.key.length := by have := ok.short; omega
  have eight (n : Nat) : (Bytes.ofNat 8 n).length = 8 := Bytes.ofNat_length 8 n
  simp only [Tuple.encode, List.append_assoc] at h
  by_cases inLength : m < 8
  · obtain ⟨got, fin', run, bad⟩ := h.read_short (n := 8) (by rw [List.length_take]; omega)
    simp only [prepareTuple, run, bad, Bool.false_eq_true, if_false]
  · obtain ⟨m, rfl⟩ : ∃ k, m = (Bytes.ofNat 8 t.key.length).length + k := ⟨m - 8, by rw [eight]; omega⟩
    rw [Bytes.take_behind] at h
    rw [eight] at cut
    obtain ⟨fin₁, run₁, h₁⟩ := h.read
    rw [eight] at run₁
    by_cases inKey : m < t.key.length
    · obtain ⟨got, fin', run, bad⟩ := h₁.read_short (n := t.key.length) (by rw [List.length_take]; omega)
      simp only [prepareTuple, run₁, h₁.good, if_true, keylen, run, room, bad, Bool.false_eq_true, if_false]
    · obtain ⟨m, rfl⟩ : ∃ k, m = t.key.length + k := ⟨m - t.key.length, by omega⟩
      rw [Bytes.take_behind] at h₁
      obtain ⟨fin₂, run₂, h₂⟩ := h₁.read
      obtain ⟨got, fin', run, bad⟩ := h₂.read_short (n := 8) (by rw [List.length_take]; omega)
      simp only [prepareTuple, run₁, h₁.good, if_true, keylen, run₂, h₂.good, run, room, bad, Bool.false_eq_true,
        if_false]

/-- At the end of the file too. -/
theorem prepareTuple_end (h : At file fin pos []) : prepareTuple fin = .ok none := by
  obtain ⟨got, fin', run, bad⟩ := h.read_short (n := 8) (by simp)
  simp only [prepareTuple, run, bad, Bool.false_eq_true, if_false]

/-- The keys of tuples. -/
def keysOf (ts : List Tuple) : Finset (List UInt8) := (ts.map Tuple.key).toFinset

/-- What `PrepareForAppend` takes for them. -/
def scanned (ts : List Tuple) : Finset (List UInt8) := (keysOf ts).image cString

theorem scanned_eq_keysOf (ok : ∀ t ∈ ts, KeyOk t) : scanned ts = keysOf ts := by
  have same : ∀ key ∈ keysOf ts, cString key = key := by
    intro key mem
    obtain ⟨t, known, rfl⟩ := List.mem_map.mp (List.mem_toFinset.mp mem)
    exact (ok t known).cString
  exact (Finset.image_congr same).trans Finset.image_id

/-- One pass over a complete tuple. -/
theorem prepareTuples_cons (ok : Scannable t) (h : At file fin pos (t.encode ++ rest)) (fuel : Nat)
    (keys : Finset (List UInt8)) (last : Int) : ∃ fin', At file fin' (pos + t.size) rest ∧
      prepareTuples (fuel + 1) fin keys last =
        prepareTuples fuel fin' (Insert.insert (cString t.key) keys) (toInt (pos + t.size)) := by
  have whole : t.encode ++ rest = (t.encode ++ rest).take (t.encode.length + rest.length) := by
    rw [Bytes.take_behind, List.take_length]
  rw [whole] at h
  obtain ⟨fin', run, h'⟩ := prepareTuple_found ok h (by
    rw [t.encode_length, Tuple.size]
    omega)
  rw [Bytes.take_behind, List.take_length, ← t.encode_length, List.drop_left, t.encode_length] at h'
  refine ⟨fin', h', ?_⟩
  rw [prepareTuples, run, ← h'.pos]
  rfl

/-- **The loop over complete tuples** takes their keys and ends behind the last one. -/
theorem prepareTuples_complete {done : List Tuple} {tail : List UInt8} (ok : ∀ t ∈ done, Scannable t) (fuel : Nat)
    (h : At file fin pos (encodeAll done ++ tail)) (keys : Finset (List UInt8)) :
    ∃ fin', At file fin' (pos + (encodeAll done).length) tail ∧ prepareTuples (done.length + fuel) fin keys (toInt pos) =
      prepareTuples fuel fin' (scanned done ∪ keys) (toInt (pos + (encodeAll done).length)) := by
  induction done generalizing fin pos keys with
  | nil => exact ⟨fin, h, by simp [scanned, keysOf, encodeAll]⟩
  | cons t done ih =>
    have cons : encodeAll (t :: done) = t.encode ++ encodeAll done := rfl
    rw [cons, List.append_assoc] at h
    obtain ⟨fin₁, h₁, run⟩ := prepareTuples_cons (ok t List.mem_cons_self) h (done.length + fuel) keys (toInt pos)
    obtain ⟨fin₂, h₂, rest⟩ := ih (fun u mem => ok u (List.mem_cons_of_mem _ mem)) h₁
      (Insert.insert (cString t.key) keys)
    refine ⟨fin₂, ?_, ?_⟩
    · rwa [cons, List.length_append, t.encode_length, ← Nat.add_assoc]
    · have length : (t :: done).length + fuel = (done.length + fuel) + 1 := by
        rw [List.length_cons]
        omega
      have more : scanned done ∪ Insert.insert (cString t.key) keys = scanned (t :: done) ∪ keys := by
        simp [scanned, keysOf]
      rw [length, run, rest, more, cons, List.length_append, t.encode_length, ← Nat.add_assoc]

theorem length_le_encodeAll (ts : List Tuple) : ts.length ≤ (encodeAll ts).length := by
  induction ts with
  | nil => simp
  | cons t ts ih =>
    have cons : encodeAll (t :: ts) = t.encode ++ encodeAll ts := rfl
    rw [cons, List.length_append, t.encode_length, List.length_cons, Tuple.size]
    omega

variable {n : Nat}

/-- Up to the cut tuple. -/
theorem prepareForAppend_complete (ok : ∀ t ∈ ts, KeyOk t) :
    ∃ fin fuel, At ((encodeAll ts).take n) fin (encodeAll (complete ts n)).length (torn ts n) ∧
      (torn ts n).length < fuel ∧ prepareForAppend (some ((encodeAll ts).take n)) =
        prepareTuples fuel fin (keysOf (complete ts n)) (toInt (encodeAll (complete ts n)).length) := by
  have cut := cut_eq ts n
  have total := congrArg List.length cut
  rw [List.length_append] at total
  have few := length_le_encodeAll (complete ts n)
  have start : At ((encodeAll ts).take n) (Stream.opened ((encodeAll ts).take n) 0) 0
      (encodeAll (complete ts n) ++ torn ts n) := ⟨rfl, rfl, rfl, cut⟩
  obtain ⟨fin, h, run⟩ := prepareTuples_complete
    (fun t mem => (ok t (complete_subset ts n mem)).scannable)
    (((encodeAll ts).take n).length + 1 - (complete ts n).length) start ∅
  rw [Nat.zero_add] at h run
  refine ⟨fin, ((encodeAll ts).take n).length + 1 - (complete ts n).length, h, by omega, ?_⟩
  · have fuel : (complete ts n).length + (((encodeAll ts).take n).length + 1 - (complete ts n).length) =
        ((encodeAll ts).take n).length + 1 := by omega
    rw [fuel, Finset.union_empty, scanned_eq_keysOf fun t mem => ok t (complete_subset ts n mem)] at run
    exact run

/-- **A cut outside of values**: the complete tuples are found. -/
theorem prepareForAppend_clean (ok : ∀ t ∈ ts, KeyOk t) (clean : ¬ CutInValue ts n) :
    prepareForAppend (some ((encodeAll ts).take n)) =
      .ok (keysOf (complete ts n), toInt (encodeAll (complete ts n)).length) := by
  obtain ⟨fin, fuel, h, enough, run⟩ := prepareForAppend_complete ok
  have break_ : prepareTuple fin = .ok none := by
    rcases torn_cases ts n with ⟨-, none⟩ | ⟨t, m, found, mem, lt, rest⟩
    · rw [none] at h
      exact prepareTuple_end h
    · have length : (torn ts n).length = m := by
        rw [rest, List.length_take, t.encode_length]
        omega
      rw [rest] at h
      refine prepareTuple_torn (ok t mem) h ?_
      by_contra value
      exact clean ⟨t, found, by omega⟩
  obtain ⟨fuel, rfl⟩ : ∃ k, fuel = k + 1 := ⟨fuel - 1, by omega⟩
  rw [run, prepareTuples, break_]
  rfl

/-- **A cut inside a value**: the tuple counts as complete. -/
theorem prepareForAppend_value (ok : ∀ t ∈ ts, KeyOk t) (found : tornTuple ts n = some t)
    (value : t.key.length + 16 ≤ (torn ts n).length) :
    ∃ last, prepareForAppend (some ((encodeAll ts).take n)) = .ok (Insert.insert t.key (keysOf (complete ts n)), last) := by
  obtain ⟨fin, fuel, h, enough, run⟩ := prepareForAppend_complete (n := n) ok
  rcases torn_cases ts n with ⟨none, -⟩ | ⟨u, m, found', mem, lt, rest⟩
  · rw [none] at found
    cases found
  · obtain rfl : u = t := Option.some.inj (found'.symm.trans found)
    have length : (torn ts n).length = m := by
      rw [rest, List.length_take, u.encode_length]
      omega
    have whole : torn ts n = (u.encode ++ []).take m := by rw [rest, List.append_nil]
    rw [whole] at h
    obtain ⟨fin', found₁, h'⟩ := prepareTuple_found (ok u mem).scannable h (by omega)
    have nothing : ((u.encode ++ []).take m).drop u.size = [] := by
      apply List.drop_eq_nil_of_le
      rw [List.length_take]
      omega
    rw [nothing] at h'
    obtain ⟨fuel, rfl⟩ : ∃ k, fuel = k + 2 := ⟨fuel - 2, by omega⟩
    refine ⟨toInt fin'.pos, ?_⟩
    rw [run, prepareTuples, found₁, (ok u mem).cString]
    simp only [bind, Except.bind]
    rw [prepareTuples, prepareTuple_end h']
    rfl

/-! ## Reading the appended file -/

/-- `Next` until it returns nothing. -/
def drain : Nat → DataShard → Run (List Tuple)
  | 0, _ => .error .fuel
  | fuel + 1, s => do
    match ← s.next with
    | (_, none) => .ok []
    | (s, some t) =>
      let ts ← drain fuel s
      .ok (t :: ts)

variable {us : List Tuple} {ks : List Nat} {cap o b : Nat} {s : DataShard}

/-- Reading tuples that go into the buffer, until `Next` returns nothing. -/
theorem Reading.drain_cases {left : List UInt8} (nonempty : ∀ t ∈ us, t.val ≠ []) (fits : ∀ t ∈ us, Holdable cap t)
    (small : cap < 2 ^ 31)
    (ends : ∀ o b s, Reading file cap o b s left → (SumsFit cap o b left.length ks ∧ ∃ s', s.next = .ok (s', none)) ∨
      (¬ SumsFit cap o b left.length ks ∧ s.next = .error .overflow))
    (h : Reading file cap o b s (encodeAll us ++ left)) (fuel : Nat) (enough : us.length < fuel) :
    (SumsFit cap o b (encodeAll us ++ left).length (us.flatMap Tuple.lengths ++ ks) ∧
      DataShard.drain fuel s = .ok us) ∨
    (¬ SumsFit cap o b (encodeAll us ++ left).length (us.flatMap Tuple.lengths ++ ks) ∧
      DataShard.drain fuel s = .error .overflow) := by
  induction us generalizing s o b fuel with
  | nil =>
    obtain ⟨fuel, rfl⟩ : ∃ k, fuel = k + 1 := ⟨fuel - 1, by omega⟩
    rw [DataShard.drain]
    rcases ends o b s h with ⟨sums, s', run⟩ | ⟨none, run⟩
    · exact .inl ⟨sums, Run.do_ok.mpr ⟨_, run, rfl⟩⟩
    · rw [run]
      exact .inr ⟨none, rfl⟩
  | cons t us ih =>
    have cons : encodeAll (t :: us) ++ left = t.encode ++ (encodeAll us ++ left) := List.append_assoc ..
    rw [List.length_cons] at enough
    obtain ⟨fuel, rfl⟩ : ∃ k, fuel = k + 1 := ⟨fuel - 1, by omega⟩
    rw [cons] at h ⊢
    rw [List.flatMap_cons, List.append_assoc, DataShard.drain]
    have here := ints_of_fits fits small t List.mem_cons_self
    rcases h.next_whole_cases (nonempty t List.mem_cons_self) here with
      ⟨-, o', b', s', run, h', sums⟩ | ⟨misfits, -⟩ | ⟨run, none⟩
    · rw [sums, run]
      rcases ih (fun u mem => nonempty u (List.mem_cons_of_mem _ mem)) (fun u mem => fits u (List.mem_cons_of_mem _ mem))
        h' fuel (by omega) with ⟨all, rest⟩ | ⟨not_all, rest⟩
      · exact .inl ⟨all, Run.do_ok.mpr ⟨_, rfl, Run.do_ok.mpr ⟨_, rest, rfl⟩⟩⟩
      · refine .inr ⟨not_all, ?_⟩
        simp only [bind, Except.bind, rest]
    · exact absurd (fits t List.mem_cons_self) misfits
    · rw [run]
      exact .inr ⟨none _, rfl⟩

/-- The bytes of the field that the cut falls into. -/
def tail (ts : List Tuple) (n cap : Nat) : List UInt8 :=
  match tornTuple ts n with
  | none => []
  | some t => leftFrom cap t.fields [] (torn ts n).length

/-- The lengths of the fields that a call behind the complete tuples may come to. -/
def lastLengths (ts : List Tuple) (n : Nat) : List Nat :=
  match tornTuple ts n with
  | none => [8]
  | some t => t.lengths

/-- The first call behind the complete tuples. -/
theorem Reading.next_torn_cases (h : Reading file cap o b s (torn ts n)) (nonempty : ∀ t ∈ ts, t.val ≠ [])
    (ints : ∀ t ∈ ts, ∀ f ∈ t.fields, f.length < 2 ^ 31) :
    (SumsFit cap o b (torn ts n).length (lastLengths ts n) ∧ ∃ s', s.next = .ok (s', none) ∧
      Reading file cap 0 (min cap (tail ts n cap).length) s' (tail ts n cap)) ∨
    (¬ SumsFit cap o b (torn ts n).length (lastLengths ts n) ∧ s.next = .error .overflow) := by
  unfold lastLengths
  rcases torn_cases ts n with ⟨none, nothing⟩ | ⟨t, m, found, mem, lt, left⟩
  · have empty : tail ts n cap = [] := by rw [tail, none]
    rw [nothing] at h
    rw [none, empty, nothing]
    by_cases int : o + 8 < 2 ^ 31
    · exact .inl ⟨⟨int, fun _ => trivial⟩, h.next_end (by simp) int⟩
    · exact .inr ⟨fun sums => int sums.1, h.next_overflow int⟩
  · have length : (torn ts n).length = m := by
      rw [left, List.length_take, t.encode_length]
      omega
    have here : tail ts n cap = leftFrom cap t.fields [] m := by rw [tail, found, length]
    have whole : torn ts n = (t.encode ++ []).take m := by rw [left, List.append_nil]
    rw [whole] at h
    rw [found, here, whole]
    have cases := h.next_cases (nonempty t mem) (ints t mem)
    rcases cases with ⟨⟨le, -⟩, -⟩ | ⟨-, s', run, h', sums⟩ | ⟨run, sums⟩
    · omega
    · have all := sums []
      rw [List.append_nil t.lengths] at all
      exact .inl ⟨all, s', run, h'⟩
    · have none := sums []
      rw [List.append_nil t.lengths] at none
      exact .inr ⟨none, run⟩

/-- Too few bytes for a length. -/
theorem Reading.next_few {left : List UInt8} (h : Reading file cap o b s left) (few : left.length < 8) (k : Nat) :
    (SumsFit cap o b left.length [8, k] ∧ ∃ s', s.next = .ok (s', none)) ∨
    (¬ SumsFit cap o b left.length [8, k] ∧ s.next = .error .overflow) := by
  by_cases int : o + 8 < 2 ^ 31
  · obtain ⟨s', run, -⟩ := h.next_end few int
    exact .inl ⟨⟨int, fun there => by omega⟩, s', run⟩
  · exact .inr ⟨fun sums => int sums.1, h.next_overflow int⟩

/-- Bytes that promise a longer key than there is. -/
theorem Reading.next_promise {head more : List UInt8} {k : Nat} (h : Reading file cap o b s (head ++ more))
    (large : 8 ≤ cap) (eight : head.length = 8) (length : toInt (Bytes.toNat head) = k) (short : more.length < k) :
    (SumsFit cap o b (head ++ more).length [8, k] ∧ ∃ s', s.next = .ok (s', none)) ∨
    (¬ SumsFit cap o b (head ++ more).length [8, k] ∧ s.next = .error .overflow) := by
  by_cases int : o + 8 < 2 ^ 31
  · obtain ⟨s₁, run₁, h₁⟩ := h.nextField_at (by omega) (by omega)
    rw [eight] at run₁ h₁
    have there : 8 ≤ (head ++ more).length ∧ 8 ≤ cap := by
      rw [List.length_append]
      omega
    by_cases fits : fieldEnd o b 8 + k < 2 ^ 31
    · obtain ⟨s₂, run₂, -⟩ := h₁.field_left fits (.inl short)
      refine .inl ⟨⟨int, fun _ => ⟨fits, fun _ => trivial⟩⟩, s₂, Run.do_ok.mpr ⟨_, run₁, ?_⟩⟩
      simp only [length]
      exact Run.do_ok.mpr ⟨_, run₂, rfl⟩
    · refine .inr ⟨fun sums => fits (sums.2 there).1, ?_⟩
      have run₂ := h₁.nextField_overflow fits
      rw [Nat.cast_ofNat] at run₁
      rw [DataShard.next, run₁]
      simp only [bind, Except.bind, length, run₂]
  · exact .inr ⟨fun sums => int sums.1, h.next_overflow int⟩

theorem toInt_nonneg {n k : Nat} (int : toInt n = k) : n % 2 ^ 32 = k := by
  have bound : toInt n < (4294967296 + 1) / 2 := Int.bmod_lt (m := 4294967296) (by omega)
  have same : toInt n % 4294967296 = n % 4294967296 := Int.bmod_emod (m := 4294967296)
  rw [int] at bound same
  omega

/-- What new tuples leave of a cut tuple promises a longer key than there is: it starts with bytes of the old
key, which are not zero. -/
theorem leftover_promises {m d k : Nat} (ok : KeyOk t) (cut : m < t.key.length + 16) (past : 9 ≤ d)
    (long : 8 ≤ ((t.encode.take m).drop d).length)
    (int : toInt (Bytes.toNat (((t.encode.take m).drop d).take 8)) = k) :
    (((t.encode.take m).drop d).drop 8).length < k := by
  have low := toInt_nonneg int
  have small := ok.short
  have length : ((t.encode.take m).drop d).length ≤ m - d := by
    rw [List.length_drop, List.length_take]
    omega
  have left : (t.encode.take m).drop d =
      (t.key.drop (d - 8) ++ (Bytes.ofNat 8 t.val.length ++ t.val)).take (m - d) := by
    have lengths : d = (Bytes.ofNat 8 t.key.length).length + (d - 8) := by
      rw [Bytes.ofNat_length]
      omega
    have inKey : d - 8 ≤ t.key.length := by omega
    rw [List.drop_take, Tuple.encode]
    simp only [List.append_assoc]
    conv_lhs => rw [lengths]
    rw [Bytes.drop_behind, List.drop_append_of_le_length inKey, ← lengths]
  rw [List.length_drop]
  rw [left] at low
  cases first : t.key.drop (d - 8) with
  | nil =>
    have := congrArg List.length first
    rw [List.length_drop, List.length_nil] at this
    omega
  | cons c cs =>
    have mem : c ∈ t.key := List.mem_of_mem_drop (first ▸ List.mem_cons_self)
    have nonzero : c.toNat ≠ 0 := fun zero => ok.noNul (UInt8.toNat.inj (a := c) (b := 0) zero ▸ mem)
    have rest := congrArg List.length first
    rw [List.length_drop, List.length_cons] at rest
    obtain ⟨e, he⟩ : ∃ e, m - d = e + 8 := ⟨m - d - 8, by omega⟩
    rw [first, he, List.take_take, Nat.min_eq_left (by omega)] at low
    have bound := c.toNat_lt
    cases cs with
    | nil =>
      simp only [List.cons_append, List.nil_append, List.take_succ_cons, Bytes.toNat] at low
      rw [List.length_nil] at rest
      omega
    | cons c' cs =>
      have mem' : c' ∈ t.key := List.mem_of_mem_drop (first ▸ List.mem_cons_of_mem _ List.mem_cons_self)
      have nonzero' : c'.toNat ≠ 0 := fun zero => ok.noNul (UInt8.toNat.inj (a := c') (b := 0) zero ▸ mem')
      have bound' := c'.toNat_lt
      simp only [List.cons_append, List.take_succ_cons, Bytes.toNat] at low
      omega

/-! ## A session after a crash -/

/-- The tuples `ts` were written, `n` bytes of them are left, and `new` is appended through a buffer of `w` bytes
and read through one of `r` bytes. -/
structure Session (ts : List Tuple) (n : Nat) (new : List Tuple) (w r : Nat) : Prop where
  keys : ∀ t ∈ ts, t.key.length < 256 ∧ (0 : UInt8) ∉ t.key
  nonempty : ∀ t ∈ ts ++ new, t.val ≠ []
  fresh : ∀ t ∈ new, t.key ∉ keysOf (complete ts n)
  fits : ∀ t ∈ new, t.size ≤ w
  writeInt : w < 2 ^ 31
  readMin : 8 ≤ r
  readInt : r < 2 ^ 31
  lengths : ∀ t ∈ ts ++ new, t.key.length ≤ r ∧ t.val.length ≤ r

/-- The file is read as the complete tuples and the new ones, and `keys_` was right. -/
def Appends (ts : List Tuple) (n : Nat) (new : List Tuple) (w r : Nat) : Prop :=
  ∃ s s' s'' reader, openAppend (some ((encodeAll ts).take n)) w = .ok s ∧ s.keys = keysOf (complete ts n) ∧
    s.inserts new = .ok (s', new) ∧ s'.flush = .ok s'' ∧ openRead (some s''.fdat.bytes) r = .ok reader ∧
    ∀ fuel, (complete ts n ++ new).length < fuel → drain fuel reader = .ok (complete ts n ++ new)

/-- The bytes that the new tuples leave of the cut one. -/
def leftover (ts : List Tuple) (n : Nat) (new : List Tuple) : List UInt8 := (torn ts n).drop (encodeAll new).length

/-- The `int` that the first four of them are. -/
def leftLength (ts : List Tuple) (n : Nat) (new : List Tuple) : Int := toInt (Bytes.toNat ((leftover ts n new).take 8))

/-- Nothing is appended, or too little is left for a length, or the length that is left is not negative. -/
def Harmless (ts : List Tuple) (n : Nat) (new : List Tuple) : Prop :=
  new = [] ∨ (leftover ts n new).length < 8 ∨ 0 ≤ leftLength ts n new

/-- The lengths that a call behind all tuples may come to. -/
def lengthsBehind (ts : List Tuple) (n : Nat) (new : List Tuple) : List Nat :=
  if new = [] then lastLengths ts n else [8, (leftLength ts n new).toNat]

/-- No sum is too large for an `int` when the tuples are appended, nor when the file is read. -/
structure AppendFits (ts : List Tuple) (n : Nat) (new : List Tuple) (w r : Nat) : Prop where
  room : RoomFits w 0 (new.map Tuple.size)
  sums : SumsFit r 0 0 (encodeAll (complete ts n ++ new) ++ leftover ts n new).length
    ((complete ts n ++ new).flatMap Tuple.lengths ++ lengthsBehind ts n new)

variable {new : List Tuple} {w r : Nat}

theorem Session.keyOk (session : Session ts n new w r) : ∀ t ∈ ts, KeyOk t := by
  intro t mem
  obtain ⟨short, noNul⟩ := session.keys t mem
  have := (session.lengths t (List.mem_append_left _ mem)).2
  have := session.readInt
  exact ⟨short, noNul, by omega⟩

theorem Session.holdable (session : Session ts n new w r) : ∀ t ∈ ts ++ new, Holdable r t :=
  fun t mem => holdable_iff.mpr ⟨session.readMin, session.lengths t mem⟩

/-- The tuples that are to be read. -/
theorem Session.known (session : Session ts n new w r) : ∀ t ∈ complete ts n ++ new, t.val ≠ [] ∧ Holdable r t := by
  intro t mem
  have known : t ∈ ts ++ new := by
    rcases List.mem_append.mp mem with mem | mem
    · exact List.mem_append_left _ (complete_subset ts n mem)
    · exact List.mem_append_right _ mem
  exact ⟨session.nonempty t known, session.holdable t known⟩

/-- What is left behind the tuples ends the reading. -/
theorem Session.next_leftover (session : Session ts n new w r) (clean : ¬ CutInValue ts n) (harmless : Harmless ts n new)
    (h : Reading file r o b s (leftover ts n new)) :
    (SumsFit r o b (leftover ts n new).length (lengthsBehind ts n new) ∧ ∃ s', s.next = .ok (s', none)) ∨
    (¬ SumsFit r o b (leftover ts n new).length (lengthsBehind ts n new) ∧ s.next = .error .overflow) := by
  unfold lengthsBehind
  by_cases none : new = []
  · have same : leftover ts n new = torn ts n := by rw [leftover, none]; rfl
    rw [same] at h ⊢
    rw [if_pos none]
    have old : ∀ t ∈ ts, t ∈ ts ++ new := fun t mem => List.mem_append_left _ mem
    rcases h.next_torn_cases (fun t mem => session.nonempty t (old t mem))
      (ints_of_fits (fun t mem => session.holdable t (old t mem)) session.readInt) with ⟨sums, s', run, -⟩ | overflow
    · exact .inl ⟨sums, s', run⟩
    · exact .inr overflow
  rw [if_neg none]
  by_cases few : (leftover ts n new).length < 8
  · exact h.next_few few _
  obtain ⟨k, int⟩ : ∃ k : Nat, leftLength ts n new = k := by
    rcases harmless with none' | few' | low
    · exact absurd none' none
    · exact absurd few' few
    · exact ⟨_, (Int.toNat_of_nonneg low).symm⟩
  rcases torn_cases ts n with ⟨-, nothing⟩ | ⟨t, m, found, mem, lt, rest⟩
  · simp [leftover, nothing] at few
  have length : (torn ts n).length = m := by
    rw [rest, List.length_take, t.encode_length]
    omega
  have cut : m < t.key.length + 16 := by
    by_contra value
    exact clean ⟨t, found, by omega⟩
  have past : 9 ≤ (encodeAll new).length := by
    obtain ⟨u, us, rfl⟩ := List.exists_cons_of_ne_nil none
    have cons : encodeAll (u :: us) = u.encode ++ encodeAll us := rfl
    rw [cons, List.length_append, u.encode_length, Tuple.size]
    omega
  have left : leftover ts n new = (t.encode.take m).drop (encodeAll new).length := by rw [leftover, rest]
  have short : ((leftover ts n new).drop 8).length < k := by
    unfold leftLength at int
    rw [left] at few int ⊢
    exact leftover_promises (session.keyOk t mem) cut past (not_lt.mp few) int
  have split := List.take_append_drop 8 (leftover ts n new)
  rw [← split] at h
  have cases := h.next_promise session.readMin (List.length_take_of_le (not_lt.mp few)) int short
  rw [split] at cases
  rwa [int, Int.toNat_natCast]

/-- A session in which nothing is inserted leaves the file as it is. -/
theorem flush_opened (mode : Mode) (fdat : Stream) (keys : Finset (List UInt8)) (cap : Nat) :
    ∃ s', (opened mode fdat keys cap).flush = .ok s' ∧ s'.fdat.bytes = fdat.bytes := by
  refine ⟨_, Run.do_ok.mpr ⟨[], rfl, rfl⟩, ?_⟩
  show (fdat.write []).bytes = fdat.bytes
  unfold Stream.write
  split
  · exact Bytes.writeAt_nil _ fdat.pos
  · rfl

/-- **The file after a cut outside of values**: the new tuples follow the complete ones, if they fit into the buffer. -/
theorem Session.appended (session : Session ts n new w r) (clean : ¬ CutInValue ts n)
    (offset : new = [] ∨ (encodeAll (complete ts n)).length < 2 ^ 31) :
    ∃ s, openAppend (some ((encodeAll ts).take n)) w = .ok s ∧ s.keys = keysOf (complete ts n) ∧
      ((RoomFits w 0 (new.map Tuple.size) ∧ ∃ s' s'', s.inserts new = .ok (s', new) ∧ s'.flush = .ok s'' ∧
          s''.fdat.bytes = encodeAll (complete ts n ++ new) ++ leftover ts n new) ∨
        (¬ RoomFits w 0 (new.map Tuple.size) ∧ ∃ e, s.inserts new = .error e)) := by
  have prepared := prepareForAppend_clean session.keyOk clean
  have cut := cut_eq ts n
  refine ⟨_, Run.do_ok.mpr ⟨_, prepared, rfl⟩, rfl, ?_⟩
  rcases offset with rfl | int
  · obtain ⟨s'', flushed, bytes⟩ := flush_opened .kAppend
      { Stream.opened ((encodeAll ts).take n) (toInt (encodeAll (complete ts n)).length).toNat with
        fail := decide (toInt (encodeAll (complete ts n)).length < 0) } (keysOf (complete ts n)) w
    refine .inl ⟨trivial, _, s'', rfl, flushed, bytes.trans ?_⟩
    rw [List.append_nil]
    exact cut
  · have nonneg : ¬ ((encodeAll (complete ts n)).length : Int) < 0 := by omega
    simp only [toInt_of_lt int, Int.toNat_natCast, nonneg, decide_false]
    have start := Writing.opened .kAppend ((encodeAll ts).take n) (encodeAll (complete ts n)).length
      (keysOf (complete ts n)) w
    have takes : ∀ t ∈ new, Takes (keysOf (complete ts n)) t :=
      fun t mem => ⟨session.nonempty t (List.mem_append_right _ mem), session.fresh t mem⟩
    rcases start.inserts_cases session.writeInt rfl takes with ⟨room, s', inserted, -, h'⟩ | full
    · obtain ⟨s'', flushed, -, -, -, -, written⟩ := h'.writeBuffer
      refine .inl ⟨room, s', s'', inserted, flushed, ?_⟩
      rw [written, List.nil_append, cut, Bytes.writeAt_append, encodeAll_append, leftover]
    · exact .inr full

/-- **After a cut outside of values** all is well exactly if no sum is too large. -/
theorem Session.appends_iff (session : Session ts n new w r) (clean : ¬ CutInValue ts n) (harmless : Harmless ts n new)
    (offset : new = [] ∨ (encodeAll (complete ts n)).length < 2 ^ 31) : Appends ts n new w r ↔ AppendFits ts n new w r := by
  obtain ⟨s, opens, keys, ⟨room, s', s'', inserted, flushed, content⟩ | ⟨full, e, fails⟩⟩ := session.appended clean offset
  · have start := Reading.opened s''.fdat.bytes r ∅
    nth_rewrite 3 [content] at start
    have reads (fuel : Nat) (enough : (complete ts n ++ new).length < fuel) := start.drain_cases
      (fun t mem => (session.known t mem).1) (fun t mem => (session.known t mem).2) session.readInt
      (fun o b s h => session.next_leftover clean harmless h) fuel enough
    constructor
    · rintro ⟨s₁, s₂, s₃, reader, opens₁, -, run₁, run₂, run₃, all⟩
      rw [opens] at opens₁
      cases opens₁
      rw [inserted] at run₁
      cases run₁
      rw [flushed] at run₂
      cases run₂
      cases run₃
      refine ⟨room, ?_⟩
      rcases reads _ (Nat.lt_succ_self _) with ⟨sums, -⟩ | ⟨-, run⟩
      · exact sums
      · rw [all _ (Nat.lt_succ_self _)] at run
        cases run
    · rintro ⟨-, sums⟩
      refine ⟨s, s', s'', _, opens, keys, inserted, flushed, rfl, fun fuel enough => ?_⟩
      rcases reads fuel enough with ⟨-, run⟩ | ⟨none, -⟩
      · exact run
      · exact absurd sums none
  · refine iff_of_false ?_ fun fits => full fits.room
    rintro ⟨s₁, s₂, s₃, reader, opens₁, -, run₁, -⟩
    rw [opens] at opens₁
    cases opens₁
    rw [fails] at run₁
    cases run₁

/-- After a cut inside a value its tuple is taken for a complete one. -/
theorem Session.not_appends_of_value (session : Session ts n new w r) (distinct : (ts.map Tuple.key).Nodup)
    (value : CutInValue ts n) : ¬ Appends ts n new w r := by
  rintro ⟨s, -, -, -, opens, keys, -⟩
  obtain ⟨t, found, begun⟩ := value
  obtain ⟨last, prepared⟩ := prepareForAppend_value session.keyOk found begun
  obtain ⟨rest, split⟩ := tornTuple_split found
  have added : s.keys = Insert.insert t.key (keysOf (complete ts n)) := by
    rw [openAppend, prepared] at opens
    cases opens
    rfl
  have known : t.key ∈ keysOf (complete ts n) := by
    rw [← keys, added]
    exact Finset.mem_insert_self _ _
  rw [split, List.map_append, List.map_cons] at distinct
  exact List.disjoint_of_nodup_append distinct (List.mem_toFinset.mp known) List.mem_cons_self

/-- **Appending after a crash**: right after a cut outside of values exactly if no sum is too large, wrong after a cut
inside one. -/
theorem append_after_cut (ts : List Tuple) (n : Nat) (new : List Tuple) (w r : Nat) (session : Session ts n new w r) :
    (¬ CutInValue ts n → Harmless ts n new → (new = [] ∨ (encodeAll (complete ts n)).length < 2 ^ 31) →
        (Appends ts n new w r ↔ AppendFits ts n new w r)) ∧
      ((ts.map Tuple.key).Nodup → CutInValue ts n → ¬ Appends ts n new w r) :=
  ⟨session.appends_iff, session.not_appends_of_value⟩

/-- Two tuples, and a third one that is appended when the file was cut. -/
def written : List Tuple := [⟨[107], [1, 2]⟩, ⟨[108], [3, 4]⟩]

theorem session_of {n : Nat} (new : ∀ t ∈ [(⟨[109], [5]⟩ : Tuple)], t.key ∉ keysOf (complete written n)) :
    Session written n [⟨[109], [5]⟩] 18 8 :=
  ⟨by decide, by decide, new, by decide, by decide, by decide, by decide, by decide⟩

/-- The cut leaves six bytes of the length of the second key. -/
theorem append_after_cut_in_length : Appends written 25 [⟨[109], [5]⟩] 18 8 := by
  have clean : ¬ CutInValue written 25 := by
    rintro ⟨t, found, begun⟩
    cases found
    exact absurd begun (by decide)
  have appends := (append_after_cut written 25 _ 18 8 (session_of (by decide))).1 clean (.inr (.inl (by decide)))
    (.inr (by decide))
  exact appends.mpr ⟨by decide, .of_sum (by decide)⟩

/-- The cut leaves the first byte of the second value. -/
theorem cut_in_value_not_appends : Session written 37 [⟨[109], [5]⟩] 18 8 ∧ ¬ Appends written 37 [⟨[109], [5]⟩] 18 8 := by
  refine ⟨session_of (by decide), (session_of (by decide)).not_appends_of_value (by decide) ?_⟩
  exact ⟨⟨[108], [3, 4]⟩, by decide, by decide⟩

end DataShard
end Singa
