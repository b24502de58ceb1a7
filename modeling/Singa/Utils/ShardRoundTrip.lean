import Singa.Utils.ShardBuffers

/-!
# What is written is read again

Tuples are inserted into a new file, and the file is read with `Next` and
`SeekToFirst` in any order. Every call does what it should exactly if no sum of
`int`s overflows: neither that of the bytes in the writer's buffer and the size of
a tuple, nor that of the reader's offset and the length of a field.
-/

namespace Singa
set_option autoImplicit false

namespace DataShard

variable {file out rest : List UInt8} {pos cap o b : Nat} {s : DataShard} {t : Tuple} {ts us : List Tuple}

/-! ## Inserting -/

/-- One more tuple inserted, with those that were accepted. -/
def insertNext (s : DataShard × List Tuple) (t : Tuple) : Run (DataShard × List Tuple) := do
  let (shard, new) ← s.1.insert t
  .ok (shard, if new then s.2 ++ [t] else s.2)

def inserts (s : DataShard) (ts : List Tuple) : Run (DataShard × List Tuple) := ts.foldlM insertNext (s, [])

/-- **Inserting new tuples**: all are accepted, and their encodings are what went through the writer, exactly if
they fit into the buffer. -/
theorem Writing.inserts_cases (small : cap < 2 ^ 31) (h : Writing file pos cap s out) (length : s.bufsize = b)
    (new : ∀ t ∈ ts, Takes s.keys t) :
    (RoomFits cap b (ts.map Tuple.size) ∧ ∃ s', s.inserts ts = .ok (s', ts) ∧ s'.keys = s.keys ∧
      Writing file pos cap s' (out ++ encodeAll ts)) ∨
    (¬ RoomFits cap b (ts.map Tuple.size) ∧ ∃ e, s.inserts ts = .error e) := by
  have run : ∀ accepted, (RoomFits cap b (ts.map Tuple.size) ∧ ∃ s', ts.foldlM insertNext (s, accepted) =
        .ok (s', accepted ++ ts) ∧ s'.keys = s.keys ∧ Writing file pos cap s' (out ++ encodeAll ts)) ∨
      (¬ RoomFits cap b (ts.map Tuple.size) ∧ ∃ e, ts.foldlM insertNext (s, accepted) = .error e) := by
    induction ts generalizing s out b with
    | nil =>
      intro accepted
      refine .inl ⟨trivial, s, ?_, rfl, ?_⟩
      · simp [pure, Except.pure]
      · simpa [encodeAll] using h
    | cons t ts ih =>
      intro accepted
      have cons : encodeAll (t :: ts) = t.encode ++ encodeAll ts := rfl
      rw [List.map_cons, RoomFits, List.foldlM_cons, insertNext]
      rcases h.insert_cases (new t List.mem_cons_self) length small with
        ⟨fits, s₁, run₁, length₁, keys₁, -, h₁⟩ | ⟨misfits, e, run₁⟩
      · rw [run₁]
        rcases ih h₁ length₁ (fun u mem => by rw [keys₁]; exact new u (List.mem_cons_of_mem _ mem)) (accepted ++ [t]) with
          ⟨room, s₂, run₂, keys₂, h₂⟩ | ⟨full, e, run₂⟩
        · refine .inl ⟨⟨fits, room⟩, s₂, ?_, keys₂.trans keys₁, ?_⟩
          · rw [List.append_assoc] at run₂
            exact run₂
          · rwa [cons, ← List.append_assoc]
        · exact .inr ⟨fun both => full both.2, e, run₂⟩
      · rw [run₁]
        exact .inr ⟨fun both => misfits both.1, e, rfl⟩
  exact run []

/-! ## Reading -/

/-- The calls of a reader. -/
inductive Call where
  | next
  | seekToFirst
  deriving DecidableEq, Repr

/-- What the calls of `Next` return. -/
def calls (s : DataShard) : List Call → Run (List (Option Tuple))
  | [] => .ok []
  | .next :: cs => do
    let (s, t) ← s.next
    let ts ← s.calls cs
    .ok (t :: ts)
  | .seekToFirst :: cs => do
    let s ← s.seekToFirst
    s.calls cs

/-- What they should return for the tuples `ts`, when `i` of them were read before. -/
def replay (ts : List Tuple) (i : Nat) : List Call → List (Option Tuple)
  | [] => []
  | .next :: cs => ts[i]? :: replay ts (i + 1) cs
  | .seekToFirst :: cs => replay ts 0 cs

/-- No sum of the reader's offset and a length is too large for an `int`, from the first of the tuples to the call
behind the last one. -/
def ReadFits (cap o b : Nat) (ts : List Tuple) : Prop :=
  SumsFit cap o b (encodeAll ts).length (ts.flatMap Tuple.lengths ++ [8])

theorem ints_of_fits (fits : ∀ t ∈ ts, Holdable cap t) (small : cap < 2 ^ 31) :
    ∀ t ∈ ts, ∀ f ∈ t.fields, f.length < 2 ^ 31 :=
  fun t mem f known => (fits t mem f known).trans_lt small

theorem lengths_sum_encodeAll (ts : List Tuple) : (ts.flatMap Tuple.lengths).sum = (encodeAll ts).length := by
  induction ts with
  | nil => rfl
  | cons t ts ih =>
    have cons : encodeAll (t :: ts) = t.encode ++ encodeAll ts := rfl
    rw [List.flatMap_cons, List.sum_append, ih, t.lengths_sum, cons, List.length_append, t.encode_length]

/-- Tuples of less than 2 GiB together. -/
theorem ReadFits.of_file (small : (encodeAll ts).length + 8 < 2 ^ 31) : ReadFits cap 0 0 ts := by
  apply SumsFit.of_sum
  rw [List.sum_append, lengths_sum_encodeAll]
  simpa using small

/-- **`Next`** where whole tuples are left: the next one is read, or a sum is no `int`. -/
theorem Reading.next_readFits (h : Reading file cap o b s (encodeAll (t :: us))) (nonempty : t.val ≠ [])
    (fits : Holdable cap t) (small : cap < 2 ^ 31) :
    (∃ o' b' s', s.next = .ok (s', some t) ∧ Reading file cap o' b' s' (encodeAll us) ∧
      (ReadFits cap o b (t :: us) ↔ ReadFits cap o' b' us)) ∨
    (s.next = .error .overflow ∧ ¬ ReadFits cap o b (t :: us)) := by
  have cons : encodeAll (t :: us) = t.encode ++ encodeAll us := rfl
  rw [cons] at h
  unfold ReadFits
  rw [cons, List.flatMap_cons, List.append_assoc]
  rcases h.next_whole_cases nonempty (fun f mem => (fits f mem).trans_lt small) with
    ⟨-, o', b', s', run, h', sums⟩ | ⟨misfits, -⟩ | ⟨run, none⟩
  · exact .inl ⟨o', b', s', run, h', sums _⟩
  · exact absurd fits misfits
  · exact .inr ⟨run, none _⟩

theorem readFits_nil : ReadFits cap o b [] ↔ o + 8 < 2 ^ 31 :=
  ⟨fun sums => sums.1, fun fits => ⟨fits, fun _ => trivial⟩⟩

/-- **Every order of calls** gets the tuples of the file. -/
theorem Reading.calls (nonempty : ∀ t ∈ ts, t.val ≠ []) (fits : ∀ t ∈ ts, Holdable cap t) (small : cap < 2 ^ 31)
    (all : ReadFits cap 0 0 ts) (cs : List Call) {i : Nat} (h : Reading (encodeAll ts) cap o b s (encodeAll (ts.drop i)))
    (sums : ReadFits cap o b (ts.drop i)) : s.calls cs = .ok (replay ts i cs) := by
  induction cs generalizing s o b i with
  | nil => rfl
  | cons c cs ih =>
    cases c with
    | seekToFirst =>
      obtain ⟨s', run, h'⟩ := h.seekToFirst
      exact Run.do_ok.mpr ⟨s', run, ih h' all⟩
    | next =>
      by_cases lt : i < ts.length
      · rw [List.drop_eq_getElem_cons lt] at h sums
        have here : ts[i]? = some ts[i] := List.getElem?_eq_getElem lt
        have mem := List.getElem_mem lt
        rw [replay, here]
        rcases h.next_readFits (nonempty _ mem) (fits _ mem) small with ⟨o', b', s', run, h', same⟩ | ⟨-, none⟩
        · exact Run.do_ok.mpr ⟨_, run, Run.do_ok.mpr ⟨_, ih h' (same.mp sums), rfl⟩⟩
        · exact absurd sums none
      · have none : ts.drop i = [] := List.drop_eq_nil_of_le (by omega)
        have none' : ts.drop (i + 1) = [] := List.drop_eq_nil_of_le (by omega)
        have away : ts[i]? = Option.none := List.getElem?_eq_none (by omega)
        rw [none] at h sums
        obtain ⟨s', run, h'⟩ := h.next_end (by simp [encodeAll]) (readFits_nil.mp sums)
        have rest := @ih 0 _ s' (i + 1) (by rw [none']; exact h') (by rw [none']; exact readFits_nil.mpr (by omega))
        rw [replay, away]
        exact Run.do_ok.mpr ⟨_, run, Run.do_ok.mpr ⟨_, rest, rfl⟩⟩

/-- Where calls of `Next` come to the end, no sum was too large. -/
theorem Reading.readFits_of_calls (nonempty : ∀ t ∈ us, t.val ≠ []) (fits : ∀ t ∈ us, Holdable cap t)
    (small : cap < 2 ^ 31) (h : Reading file cap o b s (encodeAll us)) {found : List (Option Tuple)}
    (run : s.calls (List.replicate (us.length + 1) .next) = .ok found) : ReadFits cap o b us := by
  induction us generalizing s o b found with
  | nil =>
    obtain ⟨⟨s', t⟩, first, -⟩ := Run.do_ok.mp run
    rw [readFits_nil]
    by_contra wide
    rw [h.next_overflow wide] at first
    cases first
  | cons t us ih =>
    obtain ⟨⟨s₁, u⟩, first, run⟩ := Run.do_ok.mp run
    rcases h.next_readFits (nonempty t List.mem_cons_self) (fits t List.mem_cons_self) small with
      ⟨o', b', s', next, h', sums⟩ | ⟨next, -⟩
    · rw [next] at first
      cases first
      obtain ⟨found', behind, -⟩ := Run.do_ok.mp run
      exact sums.mpr (ih (fun u mem => nonempty u (List.mem_cons_of_mem _ mem))
        (fun u mem => fits u (List.mem_cons_of_mem _ mem)) h' behind)
    · rw [next] at first
      cases first

/-! ## Writing and reading -/

/-- Tuples that a writer with a buffer of `w` bytes and a reader with one of `r` bytes admit. -/
structure Admitted (ts : List Tuple) (w r : Nat) : Prop where
  distinct : (ts.map Tuple.key).Nodup
  nonempty : ∀ t ∈ ts, t.val ≠ []
  fits : ∀ t ∈ ts, t.size ≤ w
  writeInt : w < 2 ^ 31
  readMin : 8 ≤ r
  readInt : r < 2 ^ 31
  lengths : ∀ t ∈ ts, t.key.length ≤ r ∧ t.val.length ≤ r

/-- While the tuples are inserted the buffer holds what the file does not have yet, and every order of calls
at the file reads them. -/
structure RoundTrip (ts : List Tuple) (w r : Nat) : Prop where
  writing : ∀ n ≤ ts.length, ∃ s buffered, (create w).inserts (ts.take n) = .ok (s, ts.take n) ∧
    0 ≤ s.bufsize ∧ s.bufsize ≤ s.capacity ∧ window s.buf 0 s.bufsize = .ok buffered ∧
    s.fdat.bytes ++ buffered = encodeAll (ts.take n)
  reading : ∃ s s' reader, (create w).inserts ts = .ok (s, ts) ∧ s.flush = .ok s' ∧
    openRead (some s'.fdat.bytes) r = .ok reader ∧ ∀ cs, reader.calls cs = .ok (replay ts 0 cs)

/-- The bytes of a new file. -/
theorem Writing.bytes (h : Writing [] 0 cap s out) : ∃ buffered, 0 ≤ s.bufsize ∧ s.bufsize ≤ s.capacity ∧
    window s.buf 0 s.bufsize = .ok buffered ∧ s.fdat.bytes ++ buffered = out := by
  obtain ⟨b, w, size, le, bytes, -, all⟩ := h.written
  have whole : window s.buf (0 : Nat) b = .ok ((s.buf.drop 0).take b) := window_ok (by rw [h.length]; omega)
  have file : Bytes.writeAt [] 0 w = w := Bytes.writeAt_end [] w
  refine ⟨s.buf.take b, by omega, ?_, ?_, ?_⟩
  · rw [h.capacity]
    omega
  · rw [size]
    exact whole
  · rw [bytes, file, all]

theorem Writing.create (cap : Nat) : Writing [] 0 cap (create cap) [] := Writing.opened _ _ _ _ _

variable {w r : Nat}

theorem Admitted.takes (admitted : Admitted ts w r) : ∀ t ∈ ts, Takes (DataShard.create w).keys t :=
  fun t mem => ⟨admitted.nonempty t mem, Finset.notMem_empty t.key⟩

theorem Admitted.holdable (admitted : Admitted ts w r) : ∀ t ∈ ts, Holdable r t :=
  fun t mem => holdable_iff.mpr ⟨admitted.readMin, admitted.lengths t mem⟩

/-- The file of tuples that fit into the writer's buffer. -/
theorem Admitted.flushed (admitted : Admitted ts w r) (room : RoomFits w 0 (ts.map Tuple.size)) : ∃ s s',
    (DataShard.create w).inserts ts = .ok (s, ts) ∧ Writing [] 0 w s (encodeAll ts) ∧ s.flush = .ok s' ∧
      s'.fdat.bytes = encodeAll ts := by
  rcases (Writing.create w).inserts_cases admitted.writeInt rfl admitted.takes with ⟨-, s, run, -, h⟩ | ⟨full, -⟩
  · obtain ⟨s', flushed, -, -, -, -, file⟩ := h.writeBuffer
    exact ⟨s, s', run, h, flushed, file.trans (Bytes.writeAt_end [] _)⟩
  · exact absurd room full

theorem Admitted.take (admitted : Admitted ts w r) (n : Nat) : Admitted (ts.take n) w r where
  distinct := by
    rw [List.map_take]
    exact admitted.distinct.sublist (List.take_sublist n _)
  nonempty := fun t mem => admitted.nonempty t (List.mem_of_mem_take mem)
  fits := fun t mem => admitted.fits t (List.mem_of_mem_take mem)
  writeInt := admitted.writeInt
  readMin := admitted.readMin
  readInt := admitted.readInt
  lengths := fun t mem => admitted.lengths t (List.mem_of_mem_take mem)

/-- Where a sum at the writer is too large, a call of `Insert` does not return. -/
theorem roomFits_of_roundTrip (admitted : Admitted ts w r) (trip : RoundTrip ts w r) :
    RoomFits w 0 (ts.map Tuple.size) := by
  obtain ⟨s, -, -, run, -⟩ := trip.reading
  rcases (Writing.create w).inserts_cases admitted.writeInt rfl admitted.takes with ⟨room, -⟩ | ⟨-, e, fails⟩
  · exact room
  · rw [run] at fails
    cases fails

/-- **What is written is read again** exactly if no sum at the writer and none at the reader is too large for an
`int`. -/
theorem round_trip_iff (ts : List Tuple) (w r : Nat) (admitted : Admitted ts w r) :
    RoundTrip ts w r ↔ RoomFits w 0 (ts.map Tuple.size) ∧ ReadFits r 0 0 ts := by
  constructor
  · intro trip
    have room := roomFits_of_roundTrip admitted trip
    obtain ⟨s, s', inserted, -, flushed, content⟩ := admitted.flushed room
    obtain ⟨s₁, s₂, reader, run, flush, opens, reads⟩ := trip.reading
    rw [inserted] at run
    cases run
    rw [flushed] at flush
    cases flush
    rw [content] at opens
    cases opens
    exact ⟨room, (Reading.opened (encodeAll ts) r ∅).readFits_of_calls admitted.nonempty admitted.holdable
      admitted.readInt (reads _)⟩
  · rintro ⟨room, sums⟩
    refine ⟨fun n _ => ?_, ?_⟩
    · have part : RoomFits w 0 ((ts.take n).map Tuple.size) := by
        rw [List.map_take]
        exact room.take n
      obtain ⟨s, -, run, h, -⟩ := (admitted.take n).flushed part
      obtain ⟨buffered, low, high, held, all⟩ := h.bytes
      exact ⟨s, buffered, run, low, high, held, all⟩
    · obtain ⟨s, s', run, -, flushed, content⟩ := admitted.flushed room
      refine ⟨s, s', _, run, flushed, rfl, fun cs => ?_⟩
      rw [content]
      exact Reading.calls admitted.nonempty admitted.holdable admitted.readInt sums cs (Reading.opened _ _ _) sums

/-- Two tuples through a buffer for one of them, read through the smallest buffer. -/
theorem round_trip_small_buffers : RoundTrip [⟨[107], [1, 2]⟩, ⟨[], [3]⟩] 19 8 :=
  (round_trip_iff _ _ _ ⟨by decide, by decide, by decide, by decide, by decide, by decide, by decide⟩).mpr
    ⟨by decide, .of_file (by decide)⟩

/-- Two tuples with values of `n` bytes. -/
def twoValues (n : Nat) : List Tuple := [⟨[], List.replicate n 0⟩, ⟨[107], List.replicate n 0⟩]

theorem twoValues_sizes (n : Nat) : (twoValues n).map Tuple.size = [n + 16, n + 17] := by
  simp only [twoValues, Tuple.size, List.map_cons, List.map_nil, List.length_replicate, List.length_nil,
    List.length_cons]
  congr 2
  all_goals omega

theorem twoValues_admitted {n w r : Nat} (some : 0 < n) (fits : n + 17 ≤ w) (writeInt : w < 2 ^ 31) (readMin : 8 ≤ r)
    (readInt : r < 2 ^ 31) (le : n ≤ r) : Admitted (twoValues n) w r := by
  have tuples : ∀ t ∈ twoValues n, t.key.length ≤ 1 ∧ t.val.length = n := by
    intro t mem
    rcases List.mem_cons.mp mem with rfl | mem
    · exact ⟨Nat.zero_le 1, List.length_replicate⟩
    · rw [List.mem_singleton.mp mem]
      exact ⟨Nat.le_refl 1, List.length_replicate⟩
  refine ⟨by simp [twoValues], fun t mem => ?_, fun t mem => ?_, writeInt, readMin, readInt, fun t mem => ?_⟩
  all_goals obtain ⟨key, val⟩ := tuples t mem
  · apply List.ne_nil_of_length_pos
    omega
  · unfold Tuple.size
    omega
  · omega

/-- Two tuples of 1 GiB through buffers of almost 2 GiB: the sum that decides whether the second one still fits into
the buffer is no `int`. -/
theorem gigabytes_not_round_trip : Admitted (twoValues (2 ^ 30)) (2 ^ 31 - 1) (2 ^ 31 - 1) ∧
    ¬ RoundTrip (twoValues (2 ^ 30)) (2 ^ 31 - 1) (2 ^ 31 - 1) := by
  have admitted : Admitted (twoValues (2 ^ 30)) (2 ^ 31 - 1) (2 ^ 31 - 1) :=
    twoValues_admitted (by omega) (by omega) (by omega) (by omega) (by omega) (by omega)
  refine ⟨admitted, fun trip => ?_⟩
  have room := roomFits_of_roundTrip admitted trip
  rw [twoValues_sizes] at room
  exact absurd room (by decide)

end DataShard
end Singa
