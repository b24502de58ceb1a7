import Singa.Utils.ShardTail

/-!
# A key is stored at most once

`Insert` looks a key up in `keys_`, which the constructor fills from the file and
which `Insert` itself does not add to: a key is known from the next session on,
as `PrepareForAppend` reads it, which is up to its first NUL. So a key that is
offered twice is refused the second time when a session lies between, and no
NUL is in it. The position behind the file is an `int`, as are the sums in the
buffers.
-/

namespace Singa
set_option autoImplicit false

namespace DataShard

/-! ## Sessions -/

/-- A shard that is open for writing with a buffer of `capacity` bytes, and the tuples that are inserted. -/
structure WriteSession where
  capacity : Nat
  tuples : List Tuple

/-- A call of `Insert`, with the shard before and after it. -/
structure Insertion where
  tuple : Tuple
  accepted : Bool
  before : DataShard
  after : DataShard

/-- The calls of `Insert` in a session. -/
def insertLog (s : DataShard) : List Tuple → Run (DataShard × List Insertion)
  | [] => .ok (s, [])
  | t :: ts => do
    let (after, accepted) ← s.insert t
    let (last, log) ← after.insertLog ts
    .ok (last, ⟨t, accepted, s, after⟩ :: log)

/-- A session is ended by `Flush`. -/
def session (s : DataShard) (ts : List Tuple) : Run (List UInt8 × List Insertion) := do
  let (s, log) ← s.insertLog ts
  let s ← s.flush
  .ok (s.fdat.bytes, log)

/-- Sessions in mode `kAppend`. -/
def appendSessions (file : List UInt8) : List WriteSession → Run (List UInt8 × List Insertion)
  | [] => .ok (file, [])
  | v :: vs => do
    let s ← openAppend (some file) v.capacity
    let (file, log) ← s.session v.tuples
    let (file, more) ← appendSessions file vs
    .ok (file, log ++ more)

/-- A session in mode `kCreate`, and sessions in mode `kAppend` after it. -/
def sessions (first : WriteSession) (later : List WriteSession) : Run (List UInt8 × List Insertion) := do
  let (file, log) ← (create first.capacity).session first.tuples
  let (file, more) ← appendSessions file later
  .ok (file, log ++ more)

/-- The tuples that were accepted. -/
def accepted (log : List Insertion) : List Tuple := (log.filter (·.accepted)).map (·.tuple)

@[simp] theorem accepted_append (log more : List Insertion) : accepted (log ++ more) = accepted log ++ accepted more := by
  simp [accepted]

theorem accepted_cons (i : Insertion) (log : List Insertion) :
    accepted (i :: log) = if i.accepted then i.tuple :: accepted log else accepted log := by
  cases kept : i.accepted <;> simp [accepted, kept]

@[simp] theorem keysOf_nil : keysOf [] = ∅ := rfl

@[simp] theorem keysOf_cons (t : Tuple) (ts : List Tuple) : keysOf (t :: ts) = Insert.insert t.key (keysOf ts) := by
  simp [keysOf]

@[simp] theorem keysOf_append (ts us : List Tuple) : keysOf (ts ++ us) = keysOf ts ∪ keysOf us := by
  simp [keysOf]

/-- `Insert` refuses the tuples without a value and those with a key that was stored before, in the file that
held `seen` at first or by one of the calls. -/
def AnsweredOnce (seen : Finset (List UInt8)) (log : List Insertion) : Prop :=
  ∀ earlier i later, log = earlier ++ i :: later →
    (i.accepted = false ↔ i.tuple.val = [] ∨ i.tuple.key ∈ seen ∪ keysOf (accepted earlier))

/-- A reader with a buffer of `r` bytes gets no key twice. -/
def ReadsOnce (file : List UInt8) (r : Nat) : Prop :=
  ∀ reader, openRead (some file) r = .ok reader →
    ∃ ts, (∀ fuel, ts.length < fuel → drain fuel reader = .ok ts) ∧ (ts.map Tuple.key).Nodup

/-- Every key is stored at most once, what is refused leaves no trace, and no key is read twice. -/
def StoredOnce (first : WriteSession) (later : List WriteSession) (r : Nat) : Prop :=
  ∃ file log, sessions first later = .ok (file, log) ∧ AnsweredOnce ∅ log ∧
    (∀ i ∈ log, i.accepted = false → i.after = i.before) ∧ ReadsOnce file r

/-! ## When that is so -/

/-- The keys of the tuples that have a value. -/
def offered (ts : List Tuple) : Finset (List UInt8) := keysOf (ts.filter (·.val ≠ []))

/-- A key is read again as it is if it is in the file, or else is new in its session and not what is read of a
key in the file. -/
def Plain (earlier same : Finset (List UInt8)) (key : List UInt8) : Prop :=
  if key ∈ earlier then (0 : UInt8) ∉ key else key ∉ same ∧ key ∉ earlier.image cString

instance (earlier same : Finset (List UInt8)) (key : List UInt8) : Decidable (Plain earlier same key) :=
  inferInstanceAs (Decidable (if key ∈ earlier then (0 : UInt8) ∉ key else key ∉ same ∧ key ∉ earlier.image cString))

instance (keys : Finset (List UInt8)) (t : Tuple) : Decidable (Takes keys t) :=
  inferInstanceAs (Decidable (t.val ≠ [] ∧ t.key ∉ keys))

/-- The tuples with a value and a key that is not known. -/
def taken (keys : Finset (List UInt8)) (ts : List Tuple) : List Tuple := ts.filter fun t => Takes keys t

/-- A session after the tuples `stored`: the keys are plain, and the new tuples go through the buffer. -/
structure PlainSession (stored : List Tuple) (v : WriteSession) : Prop where
  plain : ∀ same t rest, v.tuples = same ++ t :: rest → t.val ≠ [] → Plain (keysOf stored) (offered same) t.key
  room : RoomFits v.capacity 0 ((taken (keysOf stored) v.tuples).map Tuple.size)

/-- What is stored after a session. -/
def behind (stored : List Tuple) (v : WriteSession) : List Tuple := stored ++ taken (keysOf stored) v.tuples

/-- Sessions after which the file is read without running over the 256 bytes for a key. -/
def PlainSessions : List Tuple → List WriteSession → Prop
  | _, [] => True
  | stored, v :: vs => (∀ t ∈ stored, t.key.length < 256) ∧ PlainSession stored v ∧ PlainSessions (behind stored v) vs

/-- Where something new comes to a file, the end of the file is an `int`. -/
def OffsetsFit : List Tuple → List WriteSession → Prop
  | _, [] => True
  | stored, v :: vs => (taken (keysOf stored) v.tuples = [] ∨ (encodeAll stored).length < 2 ^ 31) ∧
      OffsetsFit (behind stored v) vs

/-! ## Calls of `Insert` -/

/-- What holds of every element behind those before it. -/
theorem forall_split_cons {α : Type*} {a : α} {as : List α} {P : List α → α → Prop} :
    (∀ before x after, a :: as = before ++ x :: after → P before x) ↔
      P [] a ∧ ∀ before x after, as = before ++ x :: after → P (a :: before) x := by
  constructor
  · intro all
    exact ⟨all [] a as rfl, fun before x after split => all (a :: before) x after (by rw [split]; rfl)⟩
  · rintro ⟨head, tail⟩ before x after split
    cases before with
    | nil =>
      cases split
      exact head
    | cons b before =>
      cases split
      exact tail before x after rfl

variable {log more : List Insertion} {i : Insertion} {seen : Finset (List UInt8)}

theorem answeredOnce_nil : AnsweredOnce seen [] := by
  intro earlier i later split
  simp at split

theorem answeredOnce_cons : AnsweredOnce seen (i :: log) ↔
    (i.accepted = false ↔ i.tuple.val = [] ∨ i.tuple.key ∈ seen) ∧
      AnsweredOnce (seen ∪ keysOf (accepted [i])) log := by
  have one (earlier : List Insertion) : accepted (i :: earlier) = accepted [i] ++ accepted earlier :=
    accepted_append [i] earlier
  rw [AnsweredOnce, forall_split_cons]
  refine and_congr (by simp [accepted]) ?_
  refine forall_congr' fun earlier => forall_congr' fun j => forall_congr' fun later => ?_
  rw [one, keysOf_append, ← Finset.union_assoc]

theorem answeredOnce_append : AnsweredOnce seen (log ++ more) ↔
    AnsweredOnce seen log ∧ AnsweredOnce (seen ∪ keysOf (accepted log)) more := by
  induction log generalizing seen with
  | nil => simp [answeredOnce_nil, accepted]
  | cons i log ih =>
    have both : accepted (i :: log) = accepted [i] ++ accepted log := accepted_append [i] log
    rw [List.cons_append, answeredOnce_cons, answeredOnce_cons, ih, and_assoc, both, keysOf_append,
      Finset.union_assoc]

/-- Accepted keys are distinct, and not in the file. -/
theorem AnsweredOnce.nodup (once : AnsweredOnce seen log) :
    ((accepted log).map Tuple.key).Nodup ∧ ∀ t ∈ accepted log, t.key ∉ seen := by
  induction log generalizing seen with
  | nil => simp [accepted]
  | cons i log ih =>
    obtain ⟨head, tail⟩ := answeredOnce_cons.mp once
    obtain ⟨distinct, fresh⟩ := ih tail
    rw [accepted_cons]
    cases kept : i.accepted with
    | false =>
      simp only [Bool.false_eq_true, if_false]
      exact ⟨distinct, fun t mem known => fresh t mem (Finset.mem_union_left _ known)⟩
    | true =>
      have new : ¬ (i.tuple.val = [] ∨ i.tuple.key ∈ seen) := by rw [← head, kept]; simp
      have added : i.tuple.key ∈ seen ∪ keysOf (accepted [i]) := by simp [accepted, kept]
      simp only [if_true, List.map_cons, List.nodup_cons, List.mem_cons, forall_eq_or_imp]
      refine ⟨⟨fun again => ?_, distinct⟩, fun known => new (.inr known), fun t mem known => ?_⟩
      · obtain ⟨t, mem, same⟩ := List.mem_map.mp again
        exact fresh t mem (same ▸ added)
      · exact fresh t mem (Finset.mem_union_left _ known)

/-- What a call of `Insert` does. -/
structure Answers (keys : Finset (List UInt8)) (t : Tuple) (i : Insertion) : Prop where
  tuple : i.tuple = t
  accepted : i.accepted = true ↔ Takes keys t
  unchanged : i.accepted = false → i.after = i.before

variable {file out : List UInt8} {pos cap b : Nat} {s : DataShard} {t : Tuple} {ts stored : List Tuple}

theorem insert_refused (refused : ¬ Takes s.keys t) : s.insert t = .ok (s, false) := by
  have known : t.key ∈ s.keys ∨ t.val.length = 0 := by
    rw [Takes, not_and_or, not_not, not_not] at refused
    rw [List.length_eq_zero_iff]
    exact refused.symm
  rw [DataShard.insert, if_pos known]

theorem putField_keys {s' : DataShard} {bytes : List UInt8} (run : s.putField bytes = .ok s') : s'.keys = s.keys := by
  obtain ⟨buf, -, same⟩ := Run.do_ok.mp run
  cases same
  rfl

theorem makeRoom_keys {s' : DataShard} {size : Int} (run : s.makeRoom size = .ok s') : s'.keys = s.keys := by
  obtain ⟨total, -, run⟩ := Run.do_ok.mp run
  split at run
  · obtain ⟨s₁, written, run⟩ := Run.do_ok.mp run
    obtain ⟨out, -, same⟩ := Run.do_ok.mp written
    cases same
    split at run
    · cases run
      rfl
    · cases run
  · cases run
    rfl

/-- `Insert` goes by `keys_` and leaves it as it is, whatever becomes of the file. -/
theorem insert_answers {after : DataShard} {accepted : Bool} (run : s.insert t = .ok (after, accepted)) :
    Answers s.keys t ⟨t, accepted, s, after⟩ ∧ after.keys = s.keys := by
  by_cases takes : Takes s.keys t
  · rw [DataShard.insert, if_neg takes.asked] at run
    obtain ⟨s₁, run₁, run⟩ := Run.do_ok.mp run
    obtain ⟨s₂, run₂, run⟩ := Run.do_ok.mp run
    obtain ⟨s₃, run₃, run⟩ := Run.do_ok.mp run
    obtain ⟨s₄, run₄, run⟩ := Run.do_ok.mp run
    obtain ⟨s₅, run₅, run⟩ := Run.do_ok.mp run
    cases run
    refine ⟨⟨rfl, iff_of_true rfl takes, fun refused => by cases refused⟩, ?_⟩
    rw [putField_keys run₅, putField_keys run₄, putField_keys run₃, putField_keys run₂, makeRoom_keys run₁]
  · rw [insert_refused takes] at run
    cases run
    exact ⟨⟨rfl, iff_of_false Bool.false_ne_true takes, fun _ => rfl⟩, rfl⟩

theorem insertLog_answers {last : DataShard} (run : s.insertLog ts = .ok (last, log)) :
    List.Forall₂ (Answers s.keys) ts log := by
  induction ts generalizing s log with
  | nil =>
    cases run
    exact .nil
  | cons t ts ih =>
    obtain ⟨⟨after, accepted⟩, first, run⟩ := Run.do_ok.mp run
    obtain ⟨⟨last', more⟩, later, run⟩ := Run.do_ok.mp run
    cases run
    obtain ⟨answer, keys⟩ := insert_answers first
    have rest := ih later
    rw [keys] at rest
    exact .cons answer rest

theorem session_answers (run : s.session ts = .ok (file, log)) : List.Forall₂ (Answers s.keys) ts log := by
  obtain ⟨⟨last, log'⟩, inserts, run⟩ := Run.do_ok.mp run
  obtain ⟨s', -, run⟩ := Run.do_ok.mp run
  cases run
  exact insertLog_answers inserts

theorem taken_cons (keys : Finset (List UInt8)) (t : Tuple) (ts : List Tuple) :
    taken keys (t :: ts) = if Takes keys t then t :: taken keys ts else taken keys ts := by
  simp [taken, List.filter_cons]

/-- The tuples that are accepted, and that calls that refuse one change nothing. -/
theorem accepted_spec {keys : Finset (List UInt8)} (answers : List.Forall₂ (Answers keys) ts log) :
    accepted log = taken keys ts ∧ ∀ i ∈ log, i.accepted = false → i.after = i.before := by
  induction answers with
  | nil => simp [accepted, taken]
  | @cons t i ts log answer answers ih =>
    obtain ⟨rfl, takes, unchanged⟩ := answer
    obtain ⟨all, same⟩ := ih
    refine ⟨?_, List.forall_mem_cons.mpr ⟨unchanged, same⟩⟩
    simp only [accepted_cons, taken_cons, takes, all]

/-- **A session**: the tuples that `Insert` goes on with are behind the others then, if they go through the buffer. -/
theorem Writing.insertLog (small : cap < 2 ^ 31) (h : Writing file pos cap s out) (length : s.bufsize = b)
    (ts : List Tuple) :
    (RoomFits cap b ((taken s.keys ts).map Tuple.size) ∧ ∃ last log, s.insertLog ts = .ok (last, log) ∧
      Writing file pos cap last (out ++ encodeAll (taken s.keys ts))) ∨
    (¬ RoomFits cap b ((taken s.keys ts).map Tuple.size) ∧ ∃ e, s.insertLog ts = .error e) := by
  induction ts generalizing s out b with
  | nil => exact .inl ⟨trivial, s, [], rfl, by simpa [taken, encodeAll] using h⟩
  | cons t ts ih =>
    have cons (t : Tuple) (ts : List Tuple) : encodeAll (t :: ts) = t.encode ++ encodeAll ts := rfl
    rw [taken_cons, DataShard.insertLog]
    by_cases takes : Takes s.keys t
    · rw [if_pos takes, List.map_cons, RoomFits, cons]
      rcases h.insert_cases takes length small with ⟨fits, s', run, length', keys, -, h'⟩ | ⟨misfits, e, run⟩
      · rw [run]
        rcases ih h' length' with ⟨room, last, log, runs, written⟩ | ⟨full, e, runs⟩
        · rw [keys] at room written
          refine .inl ⟨⟨fits, room⟩, last, _, Run.do_ok.mpr ⟨_, rfl, Run.do_ok.mpr ⟨_, runs, rfl⟩⟩, ?_⟩
          rwa [← List.append_assoc]
        · rw [keys] at full
          refine .inr ⟨fun both => full both.2, e, ?_⟩
          simp only [bind, Except.bind, runs]
      · rw [run]
        exact .inr ⟨fun both => misfits both.1, e, rfl⟩
    · rw [if_neg takes, insert_refused takes]
      rcases ih h length with ⟨room, last, log, runs, written⟩ | ⟨full, e, runs⟩
      · exact .inl ⟨room, last, _, Run.do_ok.mpr ⟨_, rfl, Run.do_ok.mpr ⟨_, runs, rfl⟩⟩, written⟩
      · refine .inr ⟨full, e, ?_⟩
        simp only [bind, Except.bind, runs]

/-- Calls that are all refused. -/
theorem insertLog_refused (none : taken s.keys ts = []) : ∃ log, s.insertLog ts = .ok (s, log) := by
  induction ts with
  | nil => exact ⟨[], rfl⟩
  | cons t ts ih =>
    rw [taken_cons] at none
    split at none
    · cases none
    · next refused =>
      obtain ⟨log, runs⟩ := ih none
      exact ⟨_, Run.do_ok.mpr ⟨_, insert_refused refused, Run.do_ok.mpr ⟨_, runs, rfl⟩⟩⟩

/-- Under the keys of a file, a session is as it should be exactly if its keys are plain. -/
theorem answeredOnce_iff_plain {extra : Finset (List UInt8)}
    (answers : List.Forall₂ (Answers (seen.image cString)) ts log)
    (fresh : ∀ key ∈ extra, key ∉ seen → key ∉ seen.image cString) : AnsweredOnce (seen ∪ extra) log ↔
      ∀ same t rest, ts = same ++ t :: rest → t.val ≠ [] → Plain seen (extra ∪ offered same) t.key := by
  induction answers generalizing extra with
  | nil => simp [answeredOnce_nil]
  | @cons t i ts log answer answers ih =>
    obtain ⟨rfl, takes, -⟩ := answer
    rw [answeredOnce_cons, forall_split_cons]
    by_cases empty : i.tuple.val = []
    · have refused : i.accepted = false := by
        rw [← Bool.not_eq_true, takes]
        exact fun new => new.1 empty
      have none : accepted [i] = [] := by simp [accepted, refused]
      have skip (same : List Tuple) : offered (i.tuple :: same) = offered same := by simp [offered, empty]
      simp only [none, keysOf_nil, Finset.union_empty, ih fresh, empty, refused, skip]
      simp
    · have known : i.accepted = false ↔ i.tuple.key ∈ seen.image cString := by
        rw [← Bool.not_eq_true, takes, Takes, not_and, not_not]
        exact ⟨fun new => new empty, fun mem _ => mem⟩
      have head : (i.accepted = false ↔ i.tuple.key ∈ seen ∪ extra) ↔ Plain seen extra i.tuple.key := by
        rw [known, Plain]
        by_cases stored : i.tuple.key ∈ seen
        · simp only [stored, Finset.mem_union, true_or, iff_true, if_true]
          refine ⟨fun scanned => ?_, fun noNul => ?_⟩
          · obtain ⟨key, -, same⟩ := Finset.mem_image.mp scanned
            exact same ▸ noNul_cString key
          · exact Finset.mem_image.mpr ⟨_, stored, cString_of_noNul noNul⟩
        · simp only [stored, Finset.mem_union, false_or, if_false]
          refine ⟨fun same => ?_, fun new => by simp [new.1, new.2]⟩
          have new : i.tuple.key ∉ extra := fun mem => fresh _ mem stored (same.mpr mem)
          exact ⟨new, fun mem => new (same.mp mem)⟩
      have more (same : List Tuple) : extra ∪ offered (i.tuple :: same) =
          Insert.insert i.tuple.key extra ∪ offered same := by
        simp [offered, empty]
      have nothing : extra ∪ offered [] = extra := by simp [offered]
      simp only [empty, false_or, ne_eq, not_false_eq_true, true_imp_iff, more, nothing]
      rw [head]
      refine and_congr_right fun plain => ?_
      have fresh' : ∀ key ∈ Insert.insert i.tuple.key extra, key ∉ seen → key ∉ seen.image cString := by
        intro key mem new
        rcases Finset.mem_insert.mp mem with rfl | mem
        · rw [Plain, if_neg new] at plain
          exact plain.2
        · exact fresh key mem new
      rw [← ih fresh']
      have keys : seen ∪ extra ∪ keysOf (accepted [i]) = seen ∪ Insert.insert i.tuple.key extra := by
        cases kept : i.accepted with
        | false =>
          have mem : i.tuple.key ∈ seen ∪ extra := (head.mpr plain).mp kept
          simp [accepted, kept, Finset.union_insert, Finset.insert_eq_of_mem mem]
        | true => simp [accepted, kept, Finset.union_insert, Finset.union_comm _ {i.tuple.key}]
      rw [keys]

/-! ## Opening the file again -/

variable {rest : List UInt8} {fin : Stream}

/-- Tuples that an earlier session may have stored. -/
def Kept (stored : List Tuple) : Prop := ∀ t ∈ stored, t.val ≠ [] ∧ t.size < 2 ^ 31

/-- A key that is longer than the buffer for it. -/
theorem prepareTuple_long (h : At file fin pos (t.encode ++ rest)) (long : 256 ≤ t.key.length)
    (narrow : t.key.length < 2 ^ 31) : prepareTuple fin = .error .range := by
  have keylen : Bytes.toNat (Bytes.ofNat 8 t.key.length) = t.key.length := Bytes.toNat_ofNat (by omega)
  simp only [Tuple.encode, List.append_assoc] at h
  obtain ⟨fin₁, run₁, h₁⟩ := h.read
  rw [Bytes.ofNat_length] at run₁
  simp only [prepareTuple, run₁, h₁.good, if_true, keylen, long]

theorem prepareTuples_long (h : At file fin pos (encodeAll stored ++ rest)) (kept : Kept stored)
    (long : ∃ t ∈ stored, 256 ≤ t.key.length) (fuel : Nat) (keys : Finset (List UInt8)) (last : Int) :
    prepareTuples (stored.length + fuel) fin keys last = .error .range := by
  induction stored generalizing fin pos keys last with
  | nil => simp at long
  | cons t stored ih =>
    have cons : encodeAll (t :: stored) = t.encode ++ encodeAll stored := rfl
    have length : (t :: stored).length + fuel = (stored.length + fuel) + 1 := by
      rw [List.length_cons]
      omega
    obtain ⟨⟨-, size⟩, kept⟩ := List.forall_mem_cons.mp kept
    rw [Tuple.size] at size
    rw [cons, List.append_assoc] at h
    rw [length]
    by_cases here : 256 ≤ t.key.length
    · rw [prepareTuples, prepareTuple_long h here (by omega)]
      rfl
    · obtain ⟨fin', h', run⟩ := prepareTuples_cons ⟨by omega, by omega⟩ h (stored.length + fuel) keys last
      obtain ⟨u, mem, long⟩ := long
      rcases List.mem_cons.mp mem with rfl | mem
      · exact (here long).elim
      · rw [run]
        exact ih h' kept ⟨u, mem, long⟩ _ _

theorem At.start (file : List UInt8) : At file (Stream.opened file 0) 0 file := ⟨rfl, rfl, rfl, rfl⟩

/-- A shard that was just opened for writing behind the tuples `stored`. -/
def OpenedBehind (stored : List Tuple) (cap : Nat) (s : DataShard) : Prop :=
  ∃ mode fdat, s = opened mode fdat (scanned stored) cap ∧ fdat.bytes = encodeAll stored ∧
    ((encodeAll stored).length < 2 ^ 31 → fdat = Stream.opened (encodeAll stored) (encodeAll stored).length)

theorem OpenedBehind.create (cap : Nat) : OpenedBehind [] cap (create cap) :=
  ⟨.kCreate, Stream.opened [] 0, rfl, rfl, fun _ => rfl⟩

theorem OpenedBehind.keys (behind : OpenedBehind stored cap s) : s.keys = scanned stored := by
  obtain ⟨mode, fdat, rfl, -⟩ := behind
  rfl

/-- **Opening a file of whole tuples** for appending, when their keys are short. -/
theorem openAppend_short (kept : Kept stored) (short : ∀ t ∈ stored, t.key.length < 256) (cap : Nat) :
    ∃ s, openAppend (some (encodeAll stored)) cap = .ok s ∧ OpenedBehind stored cap s := by
  have scannable : ∀ t ∈ stored, Scannable t := by
    intro t mem
    have size := (kept t mem).2
    rw [Tuple.size] at size
    exact ⟨short t mem, by omega⟩
  have few := length_le_encodeAll stored
  have start := At.start (encodeAll stored)
  nth_rewrite 3 [← List.append_nil (encodeAll stored)] at start
  obtain ⟨fin, h, run⟩ := prepareTuples_complete scannable ((encodeAll stored).length - stored.length + 1) start ∅
  rw [Nat.zero_add] at h run
  have prepared : prepareForAppend (some (encodeAll stored)) =
      .ok (scanned stored, toInt (encodeAll stored).length) := by
    have fuel : (encodeAll stored).length + 1 = stored.length + ((encodeAll stored).length - stored.length + 1) := by
      omega
    have zero : (0 : Int) = toInt 0 := rfl
    rw [prepareForAppend, fuel, zero, run, prepareTuples, prepareTuple_end h, Finset.union_empty]
    rfl
  refine ⟨_, Run.do_ok.mpr ⟨_, prepared, rfl⟩, .kAppend, _, rfl, rfl, fun small => ?_⟩
  have nonneg : ¬ ((encodeAll stored).length : Int) < 0 := by omega
  simp only [toInt_of_lt small, Int.toNat_natCast, nonneg, decide_false]
  rfl

/-- With a longer key `PrepareForAppend` writes behind its buffer. -/
theorem openAppend_long (kept : Kept stored) (long : ¬ ∀ t ∈ stored, t.key.length < 256) (cap : Nat) :
    openAppend (some (encodeAll stored)) cap = .error .range := by
  have few := length_le_encodeAll stored
  have key : ∃ t ∈ stored, 256 ≤ t.key.length := by
    obtain ⟨t, mem, long⟩ := not_forall₂.mp long
    exact ⟨t, mem, not_lt.mp long⟩
  have start := At.start (encodeAll stored)
  nth_rewrite 3 [← List.append_nil (encodeAll stored)] at start
  have run := prepareTuples_long start kept key ((encodeAll stored).length + 1 - stored.length) ∅ 0
  have fuel : stored.length + ((encodeAll stored).length + 1 - stored.length) = (encodeAll stored).length + 1 := by
    omega
  rw [fuel] at run
  rw [openAppend, prepareForAppend, run]
  rfl

/-! ## One session -/

/-- **A session** that ends puts what it accepted behind the file. -/
theorem OpenedBehind.session_cases (opened : OpenedBehind stored cap s) (small : cap < 2 ^ 31)
    (offset : taken (scanned stored) ts = [] ∨ (encodeAll stored).length < 2 ^ 31) :
    (RoomFits cap 0 ((taken (scanned stored) ts).map Tuple.size) ∧ ∃ log,
      s.session ts = .ok (encodeAll (stored ++ taken (scanned stored) ts), log)) ∨
    (¬ RoomFits cap 0 ((taken (scanned stored) ts).map Tuple.size) ∧ ∃ e, s.session ts = .error e) := by
  obtain ⟨mode, fdat, rfl, bytes, seek⟩ := opened
  rcases offset with none | int
  · obtain ⟨log, refused⟩ := insertLog_refused (s := DataShard.opened mode fdat (scanned stored) cap) none
    obtain ⟨s', flushed, same⟩ := flush_opened mode fdat (scanned stored) cap
    rw [none]
    refine .inl ⟨trivial, log, Run.do_ok.mpr ⟨_, refused, Run.do_ok.mpr ⟨s', flushed, ?_⟩⟩⟩
    rw [same, bytes, List.append_nil]
  · rw [seek int]
    have start := Writing.opened mode (encodeAll stored) (encodeAll stored).length (scanned stored) cap
    rcases start.insertLog small rfl ts with ⟨room, last, log, run, h⟩ | ⟨full, e, run⟩
    · obtain ⟨s', flushed, -, -, -, -, written⟩ := h.writeBuffer
      rw [List.nil_append, Bytes.writeAt_end] at written
      refine .inl ⟨room, log, Run.do_ok.mpr ⟨_, run, Run.do_ok.mpr ⟨s', flushed, ?_⟩⟩⟩
      rw [written, encodeAll_append]
      rfl
    · refine .inr ⟨full, e, ?_⟩
      rw [DataShard.session, run]
      rfl

/-- Where the keys are plain, `PrepareForAppend` knows the right ones. -/
theorem taken_of_plain (plain : ∀ same t rest, ts = same ++ t :: rest → t.val ≠ [] → Plain seen (offered same) t.key) :
    taken (seen.image cString) ts = taken seen ts := by
  apply List.filter_congr
  intro t mem
  rw [decide_eq_decide, Takes, Takes]
  refine and_congr_right fun nonempty => not_congr ?_
  obtain ⟨before, after, split⟩ := List.append_of_mem mem
  have here := plain before t after split nonempty
  rw [Plain] at here
  split at here
  · next known => exact iff_of_true (Finset.mem_image.mpr ⟨_, known, cString_of_noNul here⟩) known
  · next new => exact iff_of_false here.2 new

variable {v : WriteSession} {vs : List WriteSession}

/-- A session in which the keys are plain, and the new tuples fit. -/
theorem OpenedBehind.session_of_plain (opened : OpenedBehind stored v.capacity s) (small : v.capacity < 2 ^ 31)
    (plain : PlainSession stored v) (offset : taken (keysOf stored) v.tuples = [] ∨ (encodeAll stored).length < 2 ^ 31) :
    ∃ log, s.session v.tuples = .ok (encodeAll (behind stored v), log) ∧ AnsweredOnce (keysOf stored) log ∧
      accepted log = taken (keysOf stored) v.tuples ∧ ∀ i ∈ log, i.accepted = false → i.after = i.before := by
  have same : taken (scanned stored) v.tuples = taken (keysOf stored) v.tuples := taken_of_plain plain.plain
  rw [← same] at offset
  have cases := opened.session_cases small offset
  rw [same] at cases
  rcases cases with ⟨-, log, run⟩ | ⟨full, -⟩
  · have answers := session_answers run
    rw [opened.keys] at answers
    obtain ⟨all, unchanged⟩ := accepted_spec answers
    have once := answeredOnce_iff_plain answers (show ∀ key ∈ (∅ : Finset (List UInt8)), key ∉ keysOf stored → _ by simp)
    simp only [Finset.union_empty, Finset.empty_union] at once
    exact ⟨log, run, once.mpr plain.plain, all.trans same, unchanged⟩
  · exact absurd plain.room full

/-- A session that is as it should be. -/
theorem OpenedBehind.plain_of_session (opened : OpenedBehind stored v.capacity s) (small : v.capacity < 2 ^ 31)
    (offset : taken (keysOf stored) v.tuples = [] ∨ (encodeAll stored).length < 2 ^ 31)
    (run : s.session v.tuples = .ok (file, log)) (once : AnsweredOnce (keysOf stored) log) : PlainSession stored v := by
  have answers := session_answers run
  rw [opened.keys] at answers
  have plain := answeredOnce_iff_plain answers (show ∀ key ∈ (∅ : Finset (List UInt8)), key ∉ keysOf stored → _ by simp)
  simp only [Finset.union_empty, Finset.empty_union] at plain
  have keys := plain.mp once
  have same : taken (scanned stored) v.tuples = taken (keysOf stored) v.tuples := taken_of_plain keys
  refine ⟨keys, ?_⟩
  rw [← same] at offset
  have cases := opened.session_cases small offset
  rw [same] at cases
  rcases cases with ⟨room, -⟩ | ⟨-, e, fails⟩
  · exact room
  · rw [run] at fails
    cases fails

theorem PlainSession.kept (plain : PlainSession stored v) (small : v.capacity < 2 ^ 31) (kept : Kept stored) :
    Kept (behind stored v) := by
  intro t mem
  rcases List.mem_append.mp mem with mem | mem
  · exact kept t mem
  · have fits := plain.room.le _ (List.mem_map_of_mem mem)
    have takes : Takes (keysOf stored) t := of_decide_eq_true (List.mem_filter.mp mem).2
    exact ⟨takes.1, by omega⟩

/-! ## Whole histories -/

/-- What is stored after sessions. -/
def storedBy (stored : List Tuple) (vs : List WriteSession) : List Tuple := vs.foldl behind stored

/-- **Plain sessions** answer as they should, and put what they accepted behind the file. -/
theorem appendSessions_of_plain (ints : ∀ v ∈ vs, v.capacity < 2 ^ 31) (kept : Kept stored)
    (offsets : OffsetsFit stored vs) (plain : PlainSessions stored vs) : ∃ log,
    appendSessions (encodeAll stored) vs = .ok (encodeAll (storedBy stored vs), log) ∧ AnsweredOnce (keysOf stored) log ∧
      storedBy stored vs = stored ++ accepted log ∧ Kept (storedBy stored vs) ∧
      ∀ i ∈ log, i.accepted = false → i.after = i.before := by
  induction vs generalizing stored with
  | nil => exact ⟨[], rfl, answeredOnce_nil, (List.append_nil stored).symm, kept, by simp⟩
  | cons v vs ih =>
    obtain ⟨short, plain, plains⟩ := plain
    obtain ⟨offset, offsets⟩ := offsets
    obtain ⟨int, ints⟩ := List.forall_mem_cons.mp ints
    obtain ⟨s, opens, opened⟩ := openAppend_short kept short v.capacity
    obtain ⟨log, run, once, all, unchanged⟩ := opened.session_of_plain int plain offset
    obtain ⟨more, runs, onceMore, allMore, kept', unchangedMore⟩ := ih ints (plain.kept int kept) offsets plains
    have later : behind stored v = stored ++ accepted log := by rw [all, behind]
    refine ⟨log ++ more, ?_, answeredOnce_append.mpr ⟨once, ?_⟩, ?_, kept',
      List.forall_mem_append.mpr ⟨unchanged, unchangedMore⟩⟩
    · exact Run.do_ok.mpr ⟨s, opens, Run.do_ok.mpr ⟨_, run, Run.do_ok.mpr ⟨_, runs, rfl⟩⟩⟩
    · rwa [← keysOf_append, ← later]
    · rw [accepted_append, ← List.append_assoc, ← later]
      exact allMore

/-- **Sessions that answer as they should** are plain. -/
theorem plain_of_appendSessions (ints : ∀ v ∈ vs, v.capacity < 2 ^ 31) (kept : Kept stored)
    (offsets : OffsetsFit stored vs) (run : appendSessions (encodeAll stored) vs = .ok (file, log))
    (once : AnsweredOnce (keysOf stored) log) : PlainSessions stored vs := by
  induction vs generalizing stored log with
  | nil => trivial
  | cons v vs ih =>
    obtain ⟨offset, offsets⟩ := offsets
    obtain ⟨int, ints⟩ := List.forall_mem_cons.mp ints
    obtain ⟨s, opens, run⟩ := Run.do_ok.mp run
    obtain ⟨⟨file₁, log₁⟩, run₁, run⟩ := Run.do_ok.mp run
    obtain ⟨⟨file₂, log₂⟩, run₂, run⟩ := Run.do_ok.mp run
    cases run
    obtain ⟨once, onceMore⟩ := answeredOnce_append.mp once
    by_cases short : ∀ t ∈ stored, t.key.length < 256
    · obtain ⟨s', opens', opened⟩ := openAppend_short kept short v.capacity
      rw [opens] at opens'
      cases opens'
      have plain := opened.plain_of_session int offset run₁ once
      obtain ⟨log, run, -, all, -⟩ := opened.session_of_plain int plain offset
      rw [run₁] at run
      cases run
      refine ⟨short, plain, ih ints (plain.kept int kept) offsets run₂ ?_⟩
      rwa [behind, keysOf_append, ← all]
    · rw [openAppend_long kept short v.capacity] at opens
      cases opens

/-! ## Reading with any buffer -/

variable {o r : Nat}

/-- A reader gets the first tuples of the file, and ends, if no sum is too large. -/
theorem Reading.drain_front (kept : Kept ts) (h : Reading file cap o b s (encodeAll ts)) :
    (ReadFits cap o b ts ∧ ∃ us, us <+: ts ∧ ∀ fuel, us.length < fuel → DataShard.drain fuel s = .ok us) ∨
    (¬ ReadFits cap o b ts ∧ ∀ fuel, ts.length < fuel → DataShard.drain fuel s = .error .overflow) := by
  induction ts generalizing s o b with
  | nil =>
    rw [readFits_nil]
    by_cases int : o + 8 < 2 ^ 31
    · obtain ⟨s', run, -⟩ := h.next_end (by simp [encodeAll]) int
      refine .inl ⟨int, [], List.prefix_refl _, fun fuel enough => ?_⟩
      obtain ⟨fuel, rfl⟩ : ∃ k, fuel = k + 1 := ⟨fuel - 1, by omega⟩
      exact Run.do_ok.mpr ⟨_, run, rfl⟩
    · refine .inr ⟨int, fun fuel enough => ?_⟩
      obtain ⟨fuel, rfl⟩ : ∃ k, fuel = k + 1 := ⟨fuel - 1, by omega⟩
      rw [DataShard.drain, h.next_overflow int]
      rfl
  | cons t ts ih =>
    obtain ⟨⟨nonempty, size⟩, kept⟩ := List.forall_mem_cons.mp kept
    have ints : ∀ f ∈ t.fields, f.length < 2 ^ 31 := by
      intro f mem
      have part := List.single_le_sum (fun _ _ => Nat.zero_le _) _ (List.mem_map_of_mem (f := List.length) mem)
      have total : (t.fields.map List.length).sum = t.size := t.lengths_sum
      omega
    have next : Reading file cap o b s (t.encode ++ encodeAll ts) := h
    have all : ReadFits cap o b (t :: ts) ↔
        SumsFit cap o b (t.encode ++ encodeAll ts).length (t.lengths ++ (ts.flatMap Tuple.lengths ++ [8])) := by
      rw [← List.append_assoc]
      rfl
    rw [all]
    rcases next.next_whole_cases nonempty ints with
      ⟨-, o', b', s', run, h', sums⟩ | ⟨-, s', -, run, -, sums⟩ | ⟨run, none⟩
    · rw [sums]
      rcases ih kept h' with ⟨fits, us, first, runs⟩ | ⟨wide, fails⟩
      · refine .inl ⟨fits, t :: us, List.cons_prefix_cons.mpr ⟨rfl, first⟩, fun fuel enough => ?_⟩
        rw [List.length_cons] at enough
        obtain ⟨fuel, rfl⟩ : ∃ k, fuel = k + 1 := ⟨fuel - 1, by omega⟩
        exact Run.do_ok.mpr ⟨_, run, Run.do_ok.mpr ⟨_, runs fuel (by omega), rfl⟩⟩
      · refine .inr ⟨wide, fun fuel enough => ?_⟩
        rw [List.length_cons] at enough
        obtain ⟨fuel, rfl⟩ : ∃ k, fuel = k + 1 := ⟨fuel - 1, by omega⟩
        rw [DataShard.drain, run]
        simp only [bind, Except.bind, fails fuel (by omega)]
    · refine .inl ⟨sums _, [], List.nil_prefix, fun fuel enough => ?_⟩
      obtain ⟨fuel, rfl⟩ : ∃ k, fuel = k + 1 := ⟨fuel - 1, by omega⟩
      exact Run.do_ok.mpr ⟨_, run, rfl⟩
    · refine .inr ⟨none _, fun fuel enough => ?_⟩
      obtain ⟨fuel, rfl⟩ : ∃ k, fuel = k + 1 := ⟨fuel - 1, by omega⟩
      rw [DataShard.drain, run]
      rfl

/-- No key comes twice from a file without one, if no sum is too large. -/
theorem readsOnce_iff (kept : Kept ts) (distinct : (ts.map Tuple.key).Nodup) :
    ReadsOnce (encodeAll ts) r ↔ ReadFits r 0 0 ts := by
  rcases (Reading.opened (encodeAll ts) r ∅).drain_front kept with ⟨fits, us, first, runs⟩ | ⟨wide, fails⟩
  · refine iff_of_true ?_ fits
    intro reader opens
    cases opens
    exact ⟨us, runs, distinct.sublist (first.sublist.map Tuple.key)⟩
  · refine iff_of_false ?_ wide
    intro once
    obtain ⟨us, runs, -⟩ := once _ rfl
    have run := runs (max us.length ts.length + 1) (by omega)
    rw [fails (max us.length ts.length + 1) (by omega)] at run
    cases run

/-! ## The whole history -/

variable {first : WriteSession} {later : List WriteSession}

/-- **Plain histories** store every key at most once, and are read if no sum is too large. -/
theorem sessions_of_plain (ints : ∀ v ∈ first :: later, v.capacity < 2 ^ 31) (offsets : OffsetsFit [] (first :: later))
    (plain : PlainSessions [] (first :: later)) : ∃ log,
    sessions first later = .ok (encodeAll (storedBy [] (first :: later)), log) ∧ AnsweredOnce ∅ log ∧
      (∀ i ∈ log, i.accepted = false → i.after = i.before) ∧ Kept (storedBy [] (first :: later)) ∧
      ((storedBy [] (first :: later)).map Tuple.key).Nodup := by
  obtain ⟨-, plain, plains⟩ := plain
  obtain ⟨offset, offsets⟩ := offsets
  obtain ⟨int, ints⟩ := List.forall_mem_cons.mp ints
  obtain ⟨log, run, once, all, unchanged⟩ := (OpenedBehind.create first.capacity).session_of_plain int plain offset
  obtain ⟨more, runs, onceMore, allMore, kept, unchangedMore⟩ :=
    appendSessions_of_plain ints (plain.kept int (by simp [Kept])) offsets plains
  have later' : behind [] first = accepted log := all.symm
  have answered : AnsweredOnce ∅ (log ++ more) := by
    rw [answeredOnce_append, Finset.empty_union, ← later']
    exact ⟨once, onceMore⟩
  have everything : storedBy [] (first :: later) = accepted (log ++ more) := by
    rw [accepted_append, ← later']
    exact allMore
  refine ⟨log ++ more, Run.do_ok.mpr ⟨_, run, Run.do_ok.mpr ⟨_, runs, rfl⟩⟩, answered,
    List.forall_mem_append.mpr ⟨unchanged, unchangedMore⟩, kept, ?_⟩
  rw [everything]
  exact answered.nodup.1

/-- **Histories that answer as they should** are plain. -/
theorem plain_of_sessions (ints : ∀ v ∈ first :: later, v.capacity < 2 ^ 31) (offsets : OffsetsFit [] (first :: later))
    (run : sessions first later = .ok (file, log)) (once : AnsweredOnce ∅ log) : PlainSessions [] (first :: later) := by
  obtain ⟨offset, offsets⟩ := offsets
  obtain ⟨int, ints⟩ := List.forall_mem_cons.mp ints
  obtain ⟨⟨file₁, log₁⟩, run₁, run⟩ := Run.do_ok.mp run
  obtain ⟨⟨file₂, log₂⟩, run₂, run⟩ := Run.do_ok.mp run
  cases run
  obtain ⟨once, onceMore⟩ := answeredOnce_append.mp once
  have opened := OpenedBehind.create first.capacity
  have plain : PlainSession [] first := opened.plain_of_session int offset run₁ once
  obtain ⟨log, run, -, all, -⟩ := opened.session_of_plain int plain offset
  rw [run₁] at run
  cases run
  refine ⟨by simp, plain, plain_of_appendSessions ints (plain.kept int (by simp [Kept])) offsets run₂ ?_⟩
  rwa [Finset.empty_union, all] at onceMore

/-- **A key is stored at most once exactly when no key is offered twice in the session that stores it**, none is
longer than 255 bytes or offered again with a NUL, none is what is left of a stored key before its NUL, and no sum in
the buffers of the writers and of the reader is too large. -/
theorem storedOnce_iff_plain (first : WriteSession) (later : List WriteSession) (r : Nat)
    (ints : ∀ v ∈ first :: later, v.capacity < 2 ^ 31) (offsets : OffsetsFit [] (first :: later)) :
    StoredOnce first later r ↔
      PlainSessions [] (first :: later) ∧ ReadFits r 0 0 (storedBy [] (first :: later)) := by
  constructor
  · rintro ⟨file, log, run, once, -, reads⟩
    have plain := plain_of_sessions ints offsets run once
    obtain ⟨log', run', -, -, kept, distinct⟩ := sessions_of_plain ints offsets plain
    rw [run] at run'
    cases run'
    exact ⟨plain, (readsOnce_iff kept distinct).mp reads⟩
  · rintro ⟨plain, reads⟩
    obtain ⟨log, run, once, unchanged, kept, distinct⟩ := sessions_of_plain ints offsets plain
    exact ⟨_, log, run, once, unchanged, (readsOnce_iff kept distinct).mpr reads⟩

/-- A tuple, refused when it is offered again in the next session, and another one. -/
theorem again_refused : StoredOnce ⟨32, [⟨[107], [1]⟩]⟩ [⟨32, [⟨[107], [2]⟩, ⟨[108], [3]⟩]⟩] 8 := by
  have offsets : OffsetsFit [] [⟨32, [⟨[107], [1]⟩]⟩, ⟨32, [⟨[107], [2]⟩, ⟨[108], [3]⟩]⟩] :=
    ⟨.inr (by decide), .inr (by decide), trivial⟩
  refine (storedOnce_iff_plain _ _ 8 (by simp) offsets).mpr
    ⟨⟨by simp, ⟨?_, by decide⟩, by decide, ⟨?_, by decide⟩, trivial⟩, .of_file (by decide)⟩
  · exact forall_split_cons.mpr ⟨by decide, by simp⟩
  · exact forall_split_cons.mpr ⟨by decide, forall_split_cons.mpr ⟨by decide, by simp⟩⟩

/-- A tuple that is offered twice in one session is stored twice. -/
theorem twice_stored : ¬ StoredOnce ⟨64, [⟨[107], [1]⟩, ⟨[107], [2]⟩]⟩ [] 64 := by
  have offsets : OffsetsFit [] [⟨64, [⟨[107], [1]⟩, ⟨[107], [2]⟩]⟩] := ⟨.inr (by decide), trivial⟩
  rintro ⟨file, log, run, once, -⟩
  obtain ⟨-, ⟨plain, -⟩, -⟩ := plain_of_sessions (by simp) offsets run once
  have twice := plain [⟨[107], [1]⟩] ⟨[107], [2]⟩ [] rfl (by decide)
  exact absurd twice (by decide)

end DataShard
end Singa
