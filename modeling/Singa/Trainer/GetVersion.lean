import Singa.Trainer.PutGet
import Singa.Trainer.SliceLife

/-!
# Which get requests a server answers

`HandleGet` compares the version asked for with the one in the blob, `HandleUpdate`
counts rounds in `local_version`, and only the synchronisation with other server
groups carries the one over to the other. With a single group a slice therefore
stays at the version of its put: however many rounds it has seen, a get of any
later version is queued again.
-/

namespace Singa
namespace Host
set_option autoImplicit false

open Memory

variable {α : Type}

/-- A get request for a slice, with a copy or at the pointer `ptr`. -/
structure GetRequest (slice : Int) (copy : Bool) (ptr : Ptr) (msg : Msg α) : Prop where
  type : msg.type = .kGet
  sliceId : msg.sliceId = slice
  cursor : msg.cursor = 0
  frames : msg.frames = [.format [.int (flag copy), .ptr (some ptr)]]

/-- `HandleGet` answers with `values`, in the reply or at the pointer, and with a version that is not
below the one asked for. -/
def GetAnswered (h : Host α) (copy : Bool) (ptr : Ptr) (msg : Msg α) (values : List α) : Prop :=
  ∃ h' reply, h.handleGet msg = .ok (h', reply) ∧ reply.type = .kRGet ∧ msg.trgtVersion ≤ reply.trgtVersion ∧
    if copy then reply.frames = msg.frames ++ [.data values] else h'.mem.read ptr values.length = values

variable {h h' : Host α} {slice : Nat} {msg : Msg α} {p : Param α} {copy : Bool} {ptr : Ptr}

/-- A get of a version that the blob does not have yet is queued again. -/
theorem handleGet_requeue {entry : ParamEntry α} (found : h.shard slice = some entry) (shares : entry.shares = [p])
    (sliceId : msg.sliceId = slice) (late : p.version < msg.trgtVersion) : h.handleGet msg = .ok (h, msg) := by
  rw [handleGet, sliceId]
  exact Run.do_ok.mpr ⟨_, paramAt_ok found shares, if_pos late⟩

/-- The copy in an answer is what a frame can carry of the values. -/
theorem handleGet_copy {entry : ParamEntry α} {reply : Msg α} (found : h.shard slice = some entry)
    (shares : entry.shares = [p]) (version : msg.trgtVersion ≤ p.version) (get : GetRequest slice true ptr msg)
    (run : h.handleGet msg = .ok (h', reply)) :
    ∃ values, frameFloats (h.mem.read p.data.ptr p.size) = .ok values ∧ reply.frames = msg.frames ++ [.data values] := by
  rw [handleGet, get.sliceId] at run
  obtain ⟨q, front, run⟩ := Run.do_ok.mp run
  rw [paramAt_ok found shares] at front
  cases front
  simp only [not_lt.mpr version, if_false] at run
  obtain ⟨⟨m', p', moved⟩, answer, run⟩ := Run.do_ok.mp run
  obtain ⟨⟨flagged, place⟩, parsed, answer⟩ := Run.do_ok.mp answer
  have copies : msg.parseIP = .ok (1, some ptr) := by
    simp [Msg.parseIP, Msg.args, Msg.frame, get.frames, get.cursor, flag, bind, Except.bind]
  rw [copies] at parsed
  cases parsed
  obtain ⟨added, sent, answer⟩ := Run.do_ok.mp answer
  obtain ⟨values, floats, sent⟩ := Run.do_ok.mp sent
  cases sent
  cases answer
  cases run
  exact ⟨values, floats, rfl⟩

/-- A get is answered, with the values of the slice, as soon as its version is that of the blob and a copy that
is asked for fits a frame. -/
theorem getAnswered_iff (held : h.Held slice p) (get : GetRequest slice copy ptr msg) :
    h.GetAnswered copy ptr msg (h.mem.read p.data.ptr p.size) ↔
      msg.trgtVersion ≤ p.version ∧ (copy = true → p.size < 2 ^ 29) := by
  obtain ⟨entry, found, shares⟩ := held
  have frames := get.frames
  constructor
  · rintro ⟨h', reply, run, type, -, answer⟩
    have version : msg.trgtVersion ≤ p.version := by
      by_contra late
      rw [handleGet_requeue found shares get.sliceId (not_le.mp late)] at run
      obtain ⟨-, rfl⟩ := Prod.mk.inj (Except.ok.inj run)
      rw [get.type] at type
      cases type
    refine ⟨version, fun copied => ?_⟩
    subst copied
    obtain ⟨values, floats, added⟩ := handleGet_copy found shares version get run
    rw [if_pos rfl, added, List.append_cancel_left_eq, List.cons.injEq, Frame.data.injEq] at answer
    rw [answer.1, frameFloats_eq_iff, Mem.read_length] at floats
    exact floats
  · rintro ⟨version, small⟩
    cases copy with
    | true =>
      exact ⟨_, _, handleGet_copied get.sliceId found shares version get.cursor frames (small rfl), rfl, version, rfl⟩
    | false =>
      refine ⟨_, _, handleGet_shared get.sliceId found shares version get.cursor frames, rfl, version, ?_⟩
      rw [if_neg Bool.false_ne_true]
      exact Mem.read_write_self h.mem ptr _

section Runs

variable [Add α] [Sub α] [Div α] [NatCast α] [Zero α] [One α] {cluster : Cluster} {env : Env α}

/-- The put of a slice at a server. -/
theorem receive_put_held {s : Int} {put : Msg α} {out : List (Msg α)} (type : put.type = .kPut)
    (sliceId : put.sliceId = s) (run : h.receive cluster env put = .ok (h', out)) :
    ∃ p, h'.Held s p ∧ h'.server.grpId = h.server.grpId ∧
      p.proto = { (.default : ParamProto α) with id := s, owner := s } ∧
      p.version = put.trgtVersion ∧ p.localVersion = put.trgtVersion ∧
      ∃ size lr wd ptr, put.parseIFFP = .ok (size, lr, wd, ptr) ∧ p.size = size.toNat := by
  simp only [receive, type] at run
  obtain ⟨mid, stored, run⟩ := Run.do_ok.mp run
  obtain ⟨mine, -, run⟩ := Run.do_ok.mp run
  obtain ⟨total, p, absent, shard, ⟨lastData, server⟩, proto, version, localVersion, size⟩ := handlePut_new stored
  rw [sliceId] at shard proto
  have held : mid.Held s p := ⟨_, by rw [shard, Function.update_self], rfl⟩
  have grp : mid.server.grpId = h.server.grpId := by rw [server]
  cases mine
  all_goals
    cases run
    exact ⟨p, held, grp, proto, version, localVersion, size⟩

/-- With a single server group the blob stays at the version of the put, while `local_version` counts. The size
is the one in the put. -/
theorem served_versions {put : Msg α} {out msgs : List (Msg α)} {first : Host α} {rounds : Nat}
    (one : cluster.proto.nserverGroups = 1) (grp : h.server.grpId = 0) (type : put.type = .kPut)
    (sliceId : put.sliceId = slice) (stored : h.receive cluster env put = .ok (first, out))
    (unsynced : ∀ msg ∈ msgs, msg.type ≠ .kSyncRequest)
    (run : msgs.foldlM (serve cluster env slice) (first, 0) = .ok (h', rounds)) :
    ∃ p, h'.Held slice p ∧ p.version = put.trgtVersion ∧ p.localVersion = put.trgtVersion + rounds ∧
      ∃ size lr wd ptr, put.parseIFFP = .ok (size, lr, wd, ptr) ∧ p.size = size.toNat := by
  obtain ⟨p, held, same, -, version, localVersion, size⟩ := receive_put_held type sliceId stored
  obtain ⟨p', held', lasted⟩ := serve_lasted held run
  have alone : first.Alone cluster := by
    intro i lt
    rw [same, grp]
    omega
  exact ⟨p', held', (lasted.version alone).trans version, by rw [lasted.localVersion unsynced, localVersion],
    by rw [lasted.size]; exact size⟩

/-- **Which gets are answered.** After the put of a slice and any run in which its server completed some
rounds, a get is answered exactly when it asks for no later version than that of the put, and for no copy of
2²⁹ floats or more. -/
theorem getAnswered_iff_put (cluster : Cluster) (env : Env α) (h : Host α) (put : Msg α)
    (one : cluster.proto.nserverGroups = 1) (grp : h.server.grpId = 0) (type : put.type = .kPut)
    (sliceId : put.sliceId = slice) {first : Host α} {out : List (Msg α)}
    (stored : h.receive cluster env put = .ok (first, out)) (msgs : List (Msg α))
    (unsynced : ∀ msg ∈ msgs, msg.type ≠ .kSyncRequest) {rounds : Nat}
    (run : msgs.foldlM (serve cluster env slice) (first, 0) = .ok (h', rounds)) :
    ∃ p, h'.Held slice p ∧ p.localVersion = put.trgtVersion + rounds ∧
      (∃ size lr wd ptr, put.parseIFFP = .ok (size, lr, wd, ptr) ∧ p.size = size.toNat) ∧
      ∀ msg copy ptr, GetRequest slice copy ptr msg → msg.trgtVersion ≤ put.trgtVersion + rounds →
        (h'.GetAnswered copy ptr msg (h'.mem.read p.data.ptr p.size) ↔
          msg.trgtVersion ≤ put.trgtVersion ∧ (copy = true → p.size < 2 ^ 29)) := by
  obtain ⟨p, held, version, localVersion, size⟩ := served_versions one grp type sliceId stored unsynced run
  refine ⟨p, held, localVersion, size, fun msg copy ptr get _ => ?_⟩
  rw [getAnswered_iff held get, version]

end Runs

/-! ## A slice after its first round -/

section Example

open SyncSystem

def oneGroup : Cluster := ⟨⟨1, 1, 1, 1⟩, fun _ _ => 0⟩

/-- A get of a copy of the slice. -/
def getOf (version : Int) : Msg ℚ :=
  { type := .kGet, trgtVersion := version, frames := [.format [.int 1, .ptr (some ⟨9, 0⟩)]] }

theorem getOf_request (version : Int) : GetRequest ((0 : Nat) : Int) true ⟨9, 0⟩ (getOf version) := ⟨rfl, rfl, rfl, rfl⟩

/-- The put at version 0, and one round of updates. -/
theorem firstRound : ∃ first out h', (fresh 0).receive oneGroup adder put = .ok (first, out) ∧
    [updateBy 2].foldlM (serve oneGroup adder ((0 : Nat) : Int)) (first, 0) = .ok (h', 1) := by
  have rounds : (((fresh 0).receive oneGroup adder put).bind fun s =>
      [updateBy 2].foldlM (serve oneGroup adder ((0 : Nat) : Int)) (s.1, 0)).map Prod.snd = .ok 1 := by decide +kernel
  cases stored : (fresh 0).receive oneGroup adder put with
  | error e =>
    rw [stored] at rounds
    cases rounds
  | ok s =>
    rw [stored] at rounds
    cases run : [updateBy 2].foldlM (serve oneGroup adder ((0 : Nat) : Int)) (s.1, 0) with
    | error e =>
      simp only [Except.bind, run] at rounds
      cases rounds
    | ok t =>
      simp only [Except.bind, run, Except.map] at rounds
      obtain ⟨h', k⟩ := t
      obtain rfl : k = 1 := Except.ok.inj rounds
      exact ⟨s.1, s.2, h', rfl, run⟩

theorem updateBy_unsynced (x : ℚ) : ∀ msg ∈ [updateBy x], msg.type ≠ .kSyncRequest := by
  intro msg mem
  rw [List.mem_singleton.mp mem]
  exact fun type => nomatch type

/-- A get of the version that was put is answered. -/
theorem getOf_zero_answered : ∃ first out h', ∃ p : Param ℚ, (fresh 0).receive oneGroup adder put = .ok (first, out) ∧
    [updateBy 2].foldlM (serve oneGroup adder ((0 : Nat) : Int)) (first, 0) = .ok (h', 1) ∧
    h'.GetAnswered true ⟨9, 0⟩ (getOf 0) (h'.mem.read p.data.ptr p.size) := by
  obtain ⟨first, out, h', stored, run⟩ := firstRound
  obtain ⟨p, -, -, ⟨size, lr, wd, ptr, parsed, same⟩, answered⟩ :=
    getAnswered_iff_put oneGroup adder (fresh 0) put rfl rfl rfl rfl stored [updateBy 2] (updateBy_unsynced 2) run
  have one : p.size = 1 := by
    cases parsed
    exact same
  exact ⟨first, out, h', p, stored, run,
    (answered (getOf 0) true _ (getOf_request 0) (by decide)).mpr ⟨by decide, fun _ => by rw [one]; decide⟩⟩

/-- A get of the version that the first round has reached is not. -/
theorem getOf_one_requeued : ∃ first out h', ∃ p : Param ℚ, (fresh 0).receive oneGroup adder put = .ok (first, out) ∧
    [updateBy 2].foldlM (serve oneGroup adder ((0 : Nat) : Int)) (first, 0) = .ok (h', 1) ∧ h'.Held 0 p ∧
    (getOf 1).trgtVersion ≤ put.trgtVersion + 1 ∧
    ¬ h'.GetAnswered true ⟨9, 0⟩ (getOf 1) (h'.mem.read p.data.ptr p.size) := by
  obtain ⟨first, out, h', stored, run⟩ := firstRound
  obtain ⟨p, held, version, -⟩ := served_versions rfl rfl rfl rfl stored (updateBy_unsynced 2) run
  refine ⟨first, out, h', p, stored, run, held, by decide, fun answered => ?_⟩
  have low := ((getAnswered_iff held (getOf_request 1)).mp answered).1
  rw [version] at low
  exact absurd low (by decide)

end Example
end Host
end Singa
