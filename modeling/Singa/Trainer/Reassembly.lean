import Mathlib.Data.List.InsertIdx
import Singa.Communication.Packing
import Singa.Trainer.Transfer

/-!
# The put values come back

Each message of a transfer can be handled whenever it arrives and leads to
another state of the transfer. So no order of the messages makes a check fail,
and when none is left the getting worker has the values that were put.
-/

namespace Singa
set_option autoImplicit false

open Memory Trainer

variable {α : Type}

namespace Transfer

variable [Field α] {c : Transfer α} {s : System α} {g : Progress}

/-- The putting stub sends a put for every slice. -/
theorem Sim.put (v : c.Valid) (small : c.Small) (sim : c.Sim s.procs s.servers g) :
    ∃ s', s.handle c.site (c.packet .put) = .ok s' ∧
      s'.net = s.net ++ ((List.range c.sizes.length).map Token.putSlice).map c.packet ∧ c.Sim s'.procs s'.servers g := by
  obtain ⟨entry, p, found, putter⟩ := sim.putter
  obtain ⟨rest, shares⟩ := putter.shares
  have keeps := putter.keeps
  have requests : (List.range p.numSlices).map (fun i =>
      (c.site.trainer c.putProc).sliceMsg .kPut c.putVersion c.putGrp c.dst p i
        (Trainer.putFrames p
          ((c.site.trainer c.putProc).copies c.dst ((c.site.trainer c.putProc).serverOf (p.sliceStart + i)))
          entry.numTotal i (c.slice i))) = (List.range c.sizes.length).map c.putMsg := by
    rw [keeps.numSlices]
    apply List.map_congr_left
    intro idx mem
    have lt := List.mem_range.mp mem
    simp only [Trainer.sliceMsg, Trainer.putFrames, keeps.start, keeps.owner, keeps.offsetOf lt, keeps.sizeOf,
      keeps.ptr, putter.learningRate, putter.weightDecay, putter.numTotal]
    rfl
  have sent : ∀ i < p.numSlices, (c.site.trainer c.putProc).copies ((c.site.trainer c.putProc).dstGrp c.putGrp)
      ((c.site.trainer c.putProc).serverOf (p.sliceStart + i)) = true →
      frameFloats ((s.procs c.putProc).mem.read (p.data.ptr.add (p.offsetOf i)) (p.sizeOf i)) = .ok (c.slice i) := by
    intro idx bound copy
    have lt : idx < c.sizes.length := keeps.numSlices ▸ bound
    have away : c.home idx ≠ c.putProc := by
      rw [v.group, keeps.start] at copy
      exact of_decide_eq_true copy
    rw [keeps.ptr, keeps.offsetOf lt, keeps.sizeOf, (sim.source idx lt).read, frameFloats_eq_iff, slice_length v lt]
    exact small idx lt (.inl away)
  have made : (c.site.trainer c.putProc).handlePut (s.procs c.putProc).mem entry (c.packet .put).msg.hop =
      .ok (entry, (List.range c.sizes.length).map c.putMsg) := by
    rw [← requests, ← v.group]
    exact genMsgs_put v.per shares keeps.tiled.tabled (keeps.serves v c.putProc) (putter.numTotal ▸ v.shares) c.slice sent
  have handled : s.handle c.site (c.packet .put) = _ :=
    System.handle_stub rfl (handleLocalMsg_put rfl found made)
  have same : Function.update (s.procs c.putProc).workerShard (hash c.putGrp c.owner) (some entry) =
      (s.procs c.putProc).workerShard := by
    rw [← found, Function.update_eq_self]
  have unchanged : s.setStub c.putProc (s.procs c.putProc).mem
      (Function.update (s.procs c.putProc).workerShard (hash c.putGrp c.owner) (some entry)) = s := by
    rw [same, s.setStub_self]
  refine ⟨_, handled, ?_, ?_⟩
  · simp only [System.send, List.map_map]
    rfl
  · show c.Sim (s.setStub c.putProc (s.procs c.putProc).mem
      (Function.update (s.procs c.putProc).workerShard (hash c.putGrp c.owner) (some entry))).procs s.servers g
    rw [unchanged]
    exact sim

/-- The getting stub sends a get for every slice. -/
theorem Sim.get (v : c.Valid) (sim : c.Sim s.procs s.servers g) (waits : g.getDone = false)
    (fresh : ∀ idx, idx ∉ g.parsed ∧ idx ∉ g.served) :
    ∃ s', s.handle c.site (c.packet .get) = .ok s' ∧
      s'.net = s.net ++ ((List.range c.sizes.length).map Token.getSlice).map c.packet ∧
      c.Sim s'.procs s'.servers { g with getDone := true } := by
  obtain ⟨entry, p, found, getter⟩ := sim.getter
  obtain ⟨rest, shares⟩ := getter.shares
  have keeps := getter.keeps
  have flags : p.pendingGet.length = p.numSlices := by rw [getter.flags, keeps.numSlices]
  have version : entry.nextVersion < c.getVersion := by simpa [waits] using getter.asked
  have requests : (List.range p.numSlices).map (fun i =>
      (c.site.trainer c.getProc).sliceMsg .kGet c.getVersion c.getGrp c.dst p i
        (Trainer.getFrames p ((c.site.trainer c.getProc).copies c.dst
          ((c.site.trainer c.getProc).serverOf (p.sliceStart + i))) i)) =
      (List.range c.sizes.length).map c.getMsg := by
    rw [keeps.numSlices]
    apply List.map_congr_left
    intro idx mem
    have lt := List.mem_range.mp mem
    simp only [Trainer.sliceMsg, Trainer.getFrames, keeps.start, keeps.owner, keeps.offsetOf lt, keeps.ptr]
    rfl
  have made : (c.site.trainer c.getProc).handleGet (s.procs c.getProc).mem entry (c.packet .get).msg.hop =
      .ok (({ entry with nextVersion := c.getVersion } : ParamEntry α).setFront (p.asked p.numSlices),
        (List.range c.sizes.length).map c.getMsg) := by
    rw [← requests]
    refine (if_pos version).trans ?_
    exact genMsgs_get v.per shares keeps.tiled.tabled (keeps.serves v c.getProc) flags
  have handled : s.handle c.site (c.packet .get) = _ :=
    System.handle_stub rfl (handleLocalMsg_get rfl found made)
  have unset : ∀ b ∈ p.pendingGet, b = false := by
    intro b mem
    obtain ⟨idx, lt, rfl⟩ := List.mem_iff_getElem.mp mem
    have pending := getter.pending idx (getter.flags ▸ lt)
    rw [List.getElem?_eq_getElem lt, waits, Bool.false_and] at pending
    exact Option.some.inj pending
  have getter' : c.Getter { g with getDone := true }
      (({ entry with nextVersion := c.getVersion } : ParamEntry α).setFront (p.asked p.numSlices))
      (p.asked p.numSlices) := by
    have all : (p.asked p.numSlices).pendingGet = List.replicate c.sizes.length true := by
      simp [Param.asked, ← flags, getter.flags]
    have none : p.pendingGet.count true = 0 := by
      rw [List.count_eq_zero]
      exact fun mem => by simpa using unset true mem
    refine ⟨⟨rest, by simp [ParamEntry.setFront, shares]⟩, keeps.requests _ _ p.version, rfl, by rw [all, List.length_replicate], ?_, ?_, ?_, ?_⟩
    · intro idx lt
      rw [all]
      simp [lt, fresh idx]
    · rw [all]
      simp [Param.asked, getter.count, none, keeps.numSlices]
    · rintro ⟨-, some, parsed⟩
      exact absurd (parsed 0 some) (fresh 0).1
    · intro _
      exact getter.before (by simp [Progress.Complete, waits])
  refine ⟨_, handled, ?_, ?_⟩
  · simp only [System.send, List.map_map]
    rfl
  · exact sim.set_getter found getter getter' rfl rfl rfl (Safe.refl c _ _) (le_refl _)
      (by simp [fresh])

/-- A server stores a slice. -/
theorem Sim.store (v : c.Valid) (sim : c.Sim s.procs s.servers g) {idx : Nat} (lt : idx < c.sizes.length)
    (new : idx ∉ g.stored) : ∃ s', s.handle c.site (c.packet (.putSlice idx)) = .ok s' ∧ s'.net = s.net ∧
      c.Sim s'.procs s'.servers { g with stored := insert idx g.stored } := by
  have absent := sim.absent idx lt new
  obtain ⟨grp, table⟩ := sim.table idx lt
  have positive : 0 < c.size idx := by
    have mem := v.positive c.sizes[idx] (List.getElem_mem lt)
    simpa [size, lt] using mem
  obtain ⟨m', p, moved, stored, count, next, frame, size, has⟩ : ∃ m' p moved,
      Param.handlePutMsg (s.procs (c.home idx)).mem (c.putMsg idx).hop = .ok (m', p, moved) ∧
      Host.numShares moved = .ok c.numTotal ∧ (s.procs (c.home idx)).mem.next ≤ m'.next ∧
      (∀ q n, q.blk < (s.procs (c.home idx)).mem.next → m'.read q n = (s.procs (c.home idx)).mem.read q n) ∧
      p.size = c.size idx ∧ c.Has (c.home idx) m' idx p.data.ptr := by
    by_cases here : c.home idx = c.putProc
    · have frames : (c.putMsg idx).hop.frames = [.format [.int (c.size idx), .float c.learningRate,
          .float c.weightDecay, .ptr (some (c.putPtr.add (c.offset idx)))], .format [.int c.numTotal]] := by
        simp [putMsg, putFrames, request, Msg.hop, Msg.firstFrame, here]
      obtain ⟨m', p, moved, stored, count, kept⟩ := Param.handlePutMsg_shared rfl positive frames
      refine ⟨m', p, moved, stored, count, kept.next, kept.frame, kept.size_eq, ?_⟩
      have source := sim.source idx lt
      rw [← here] at source
      rw [kept.shared _ rfl]
      exact Safe.of_frame kept.next kept.frame idx lt _ source
    · have frames : (c.putMsg idx).hop.frames = [.format [.int (c.size idx), .float c.learningRate,
          .float c.weightDecay, .ptr none], .data (c.slice idx), .format [.int c.numTotal]] := by
        simp [putMsg, putFrames, request, Msg.hop, Msg.firstFrame, here]
      obtain ⟨m', p, moved, stored, count, kept⟩ :=
        Param.handlePutMsg_copied rfl (slice_length v lt) positive frames
      obtain ⟨blk, more, read⟩ := kept.copied rfl
      refine ⟨m', p, moved, stored, count, kept.next, kept.frame, kept.size_eq, read, by omega, fun home => .inl ?_⟩
      have target := sim.target
      apply Apart.of_blk
      rw [← home] at target
      omega
  obtain ⟨server, received, groups⟩ := Host.receive_put_ok c.site.cluster c.site.env
    (s.host (c.home idx) (c.dst, c.server idx)) rfl rfl absent table stored count
  have handled : s.handle c.site (c.packet (.putSlice idx)) = _ := System.handle_server rfl received
  refine ⟨_, handled, by simp [System.send, System.setHost], ?_⟩
  exact sim.set_host rfl rfl rfl rfl groups (Safe.of_frame next frame) next
    (fun _ => ⟨Function.update_self .., rfl, rfl, size, rfl, has⟩) (fun _ _ old _ => .inl old)

/-- A get that comes before the put of its slice is queued again. -/
theorem Sim.requeue (sim : c.Sim s.procs s.servers g) {idx : Nat} (lt : idx < c.sizes.length)
    (early : idx ∉ g.stored) : ∃ s', s.handle c.site (c.packet (.getSlice idx)) = .ok s' ∧
      s'.net = s.net ++ [c.packet (.getSlice idx)] ∧ c.Sim s'.procs s'.servers g := by
  have received : (s.host (c.home idx) (c.dst, c.server idx)).receive c.site.cluster c.site.env (c.getMsg idx).hop =
      .ok (s.host (c.home idx) (c.dst, c.server idx), [(c.getMsg idx).hop]) :=
    Host.receive_get_absent rfl rfl (sim.absent idx lt early)
  have handled : s.handle c.site (c.packet (.getSlice idx)) = _ := System.handle_server rfl received
  have same : s.setHost (c.home idx) (c.dst, c.server idx) (s.host (c.home idx) (c.dst, c.server idx)) = s := by
    cases s
    simp [System.setHost, System.host]
  refine ⟨_, handled, rfl, ?_⟩
  show c.Sim (s.setHost (c.home idx) (c.dst, c.server idx) (s.host (c.home idx) (c.dst, c.server idx))).procs
    (s.setHost (c.home idx) (c.dst, c.server idx) (s.host (c.home idx) (c.dst, c.server idx))).servers g
  rw [same]
  exact sim

/-- A server answers a get. -/
theorem Sim.serve (v : c.Valid) (small : c.Small) (sim : c.Sim s.procs s.servers g) {idx : Nat} (lt : idx < c.sizes.length)
    (put : idx ∈ g.stored) : ∃ s', s.handle c.site (c.packet (.getSlice idx)) = .ok s' ∧
      s'.net = s.net ++ [c.packet (.response idx)] ∧
      c.Sim s'.procs s'.servers { g with served := insert idx g.served } := by
  obtain ⟨entry, p, kept⟩ := sim.stored idx lt put
  have read : (s.procs (c.home idx)).mem.read p.data.ptr p.size = c.slice idx := by rw [kept.size, kept.has.read]
  have version : c.getVersion ≤ p.version := kept.version ▸ v.version
  have insertion : g.stored = insert idx g.stored := (Finset.insert_eq_of_mem put).symm
  by_cases here : c.home idx = c.getProc
  · have frames : (c.getMsg idx).hop.frames =
        [.format [.int (flag false), .ptr (some (c.getPtr.add (c.offset idx)))]] := by
      simp [getMsg, request, Msg.hop, Msg.firstFrame, here]
    have received : (s.host (c.home idx) (c.dst, c.server idx)).receive c.site.cluster c.site.env
        (c.getMsg idx).hop = _ := Host.receive_get_shared rfl rfl kept.found kept.shares version rfl frames
    have handled : s.handle c.site (c.packet (.getSlice idx)) = _ := System.handle_server rfl received
    have message : Host.getResponse (c.getMsg idx).hop p.version [] = c.response idx := by
      simp only [response, here, ne_eq, not_true_eq_false, if_false, kept.version]
      rfl
    have safe : c.Safe (c.home idx) (s.procs (c.home idx)).mem
        ((s.procs (c.home idx)).mem.write (c.getPtr.add (c.offset idx)) (c.slice idx)) := by
      rw [here]
      exact Safe.of_write v _ lt
    have has : c.Has (c.home idx) ((s.procs (c.home idx)).mem.write (c.getPtr.add (c.offset idx)) (c.slice idx)) idx
        (c.getPtr.add (c.offset idx)) := by
      refine ⟨Mem.read_write_of_length _ (slice_length v lt), ?_, fun _ => .inr rfl⟩
      rw [here]
      exact sim.target
    have shares (q : Param α) : (entry.setFront q).shares = [q] := by simp [ParamEntry.setFront, kept.shares]
    simp only [System.host, read] at handled
    refine ⟨_, handled, ?_, ?_⟩
    · simp only [System.send, List.map_cons, List.map_nil]
      exact congrArg (fun msg => s.net ++ [c.site.route msg]) message
    · exact sim.set_host rfl rfl insertion rfl rfl safe (le_refl _)
        (fun _ => ⟨Function.update_self .., shares _, kept.numTotal, kept.size, kept.version, has⟩)
        (fun j _ served _ => (Finset.mem_insert.mp served).elim (fun same => .inr ⟨same, here ▸ has⟩) .inl)
  · have frames : (c.getMsg idx).hop.frames =
        [.format [.int (flag true), .ptr (some (c.getPtr.add (c.offset idx)))]] := by
      simp [getMsg, request, Msg.hop, Msg.firstFrame, here]
    have received : (s.host (c.home idx) (c.dst, c.server idx)).receive c.site.cluster c.site.env
        (c.getMsg idx).hop = _ := Host.receive_get_copied rfl rfl kept.found kept.shares version rfl frames
          (kept.size ▸ small idx lt (.inr here))
    have handled : s.handle c.site (c.packet (.getSlice idx)) = _ := System.handle_server rfl received
    have message : Host.getResponse (c.getMsg idx).hop p.version
        [.data ((s.procs (c.home idx)).mem.read p.data.ptr p.size)] = c.response idx := by
      simp only [response, here, ne_eq, not_false_eq_true, if_true, kept.version, read]
      rfl
    refine ⟨_, handled, ?_, ?_⟩
    · simp only [System.send, List.map_cons, List.map_nil]
      exact congrArg (fun msg => s.net ++ [c.site.route msg]) message
    · exact sim.set_host rfl rfl insertion rfl rfl (Safe.refl c _ _) (le_refl _)
        (fun _ => ⟨Function.update_self .., kept.shares, kept.numTotal, kept.size, kept.version, kept.has⟩)
        (fun j _ served home => (Finset.mem_insert.mp served).elim (fun same => absurd (same ▸ home) here) .inl)

/-- The getting stub parses a response. -/
theorem Sim.parse (v : c.Valid) (sim : c.Sim s.procs s.servers g) (done : g.getDone = true) {idx : Nat}
    (lt : idx < c.sizes.length) (served : idx ∈ g.served) (new : idx ∉ g.parsed) :
    ∃ s', s.handle c.site (c.packet (.response idx)) = .ok s' ∧ s'.net = s.net ∧
      c.Sim s'.procs s'.servers { g with parsed := insert idx g.parsed } := by
  obtain ⟨entry, p, found, getter⟩ := sim.getter
  obtain ⟨rest, shares⟩ := getter.shares
  have keeps := getter.keeps
  have below : idx < p.numSlices := keeps.numSlices ▸ lt
  have waits : p.pendingGet[idx]? = some true := by
    rw [getter.pending idx lt, done, decide_eq_true new]
    rfl
  obtain ⟨m', parsed, safe, next, has⟩ : ∃ m',
      Param.parseResponseMsg (s.procs c.getProc).mem { p with pendingGet := p.pendingGet.set idx false }
        (c.response idx).hop idx = .ok m' ∧ c.Safe c.getProc (s.procs c.getProc).mem m' ∧
      (s.procs c.getProc).mem.next ≤ m'.next ∧ c.Has c.getProc m' idx (c.getPtr.add (c.offset idx)) := by
    by_cases here : c.home idx = c.getProc
    · have frames : (c.response idx).hop.frames =
          [.format [.int (flag false), .ptr (some (c.getPtr.add (c.offset idx)))]] := by
        simp [response, Host.getResponse, getMsg, request, Msg.hop, Msg.firstFrame, here]
      exact ⟨_, Param.parseResponseMsg_shared rfl frames, Safe.refl c _ _, le_refl _,
        sim.filled idx lt (.inr ⟨served, here⟩)⟩
    · have frames : (c.response idx).hop.frames =
          [.format [.int (flag true), .ptr (some (c.getPtr.add (c.offset idx)))], .data (c.slice idx)] := by
        simp [response, Host.getResponse, getMsg, request, Msg.hop, Msg.firstFrame, here]
      have tabled : ({ p with pendingGet := p.pendingGet.set idx false } : Param α).Tabled :=
        ⟨keeps.tiled.tabled.offsets, keeps.tiled.tabled.sizes⟩
      have length : (c.slice idx).length =
          ({ p with pendingGet := p.pendingGet.set idx false } : Param α).sizeOf idx := by
        rw [slice_length v lt, ← keeps.sizeOf]
        rfl
      have place : p.data.ptr.add (p.offsetOf idx) = c.getPtr.add (c.offset idx) := by
        rw [keeps.ptr, keeps.offsetOf lt]
      have written : Param.parseResponseMsg (s.procs c.getProc).mem
          { p with pendingGet := p.pendingGet.set idx false } (c.response idx).hop idx =
          .ok ((s.procs c.getProc).mem.write (c.getPtr.add (c.offset idx)) (c.slice idx)) := by
        rw [← place]
        exact Param.parseResponseMsg_copied tabled below rfl frames length
      exact ⟨_, written, Safe.of_write v _ lt, le_refl _, Mem.read_write_of_length _ (slice_length v lt), sim.target,
        fun _ => .inr rfl⟩
  have response : handleGetResponse (s.procs c.getProc).mem entry (c.response idx).hop = _ :=
    handleGetResponse_ok shares below (by rw [keeps.start]; rfl) waits parsed
  have handled : s.handle c.site (c.packet (.response idx)) = _ :=
    System.handle_stub rfl (handleLocalMsg_rget rfl found response)
  obtain ⟨p', getter', proto⟩ := getter.parse shares done lt new
  have numTotal : (if (p.numPendingRequests - 1) % p.numSlices = 0
      then (entry.setFront (gotSlice p idx)).setVersion c.putVersion else entry.setFront (gotSlice p idx)).numTotal =
      entry.numTotal := by
    split <;> rfl
  refine ⟨_, handled, by simp [System.send, System.setStub], ?_⟩
  refine sim.set_getter found getter getter' proto numTotal rfl safe next ?_
  intro j bound ready
  rcases ready with mem | ⟨old, home⟩
  · rcases Finset.mem_insert.mp mem with rfl | old
    · exact has
    · exact safe j bound _ (sim.filled j bound (.inl old))
  · exact safe j bound _ (sim.filled j bound (.inr ⟨old, home⟩))

/-- **Any message in flight can be handled**, and leads to another state of the transfer. -/
theorem Sim.deliver (v : c.Valid) (small : c.Small) {l : Ledger} (ok : l.Ok c.sizes.length) (net : s.net = l.tokens.map c.packet)
    (sim : c.Sim s.procs s.servers l.toProgress) (i : Nat) :
    ∃ s', s.deliver c.site i = .ok s' ∧ c.Reached s' := by
  have erased : s.net.eraseIdx i = (l.tokens.eraseIdx i).map c.packet := by rw [net, List.eraseIdx_map]
  cases here : l.tokens[i]? with
  | none =>
    refine ⟨s, ?_, l, ok, net, sim⟩
    rw [System.deliver, net, List.getElem?_map, here, Option.map_none]
  | some t =>
    have taken : s.deliver c.site i = ({ s with net := s.net.eraseIdx i } : System α).handle c.site (c.packet t) := by
      rw [System.deliver, net, List.getElem?_map, here, Option.map_some]
    have pending := ok.pending here
    have sim' : c.Sim ({ s with net := s.net.eraseIdx i } : System α).procs
        ({ s with net := s.net.eraseIdx i } : System α).servers l.toProgress := sim
    rw [taken]
    cases t with
    | put =>
      obtain ⟨s', handled, net', sim''⟩ := sim'.put v small
      exact ⟨s', handled, _, ok.put here, by rw [net', List.map_append, ← erased], sim''⟩
    | get =>
      have waits : l.getDone = false := by simpa [Ledger.expect] using pending
      have fresh : ∀ idx, idx ∉ l.parsed ∧ idx ∉ l.served := by
        intro idx
        have none : idx ∉ l.served := fun mem => by simpa [waits] using ok.served idx mem
        exact ⟨fun mem => none (ok.parsed idx mem), none⟩
      obtain ⟨s', handled, net', sim''⟩ := sim'.get v waits fresh
      exact ⟨s', handled, _, ok.get here, by rw [net', List.map_append, ← erased], sim''⟩
    | putSlice idx =>
      obtain ⟨lt, -, new⟩ : idx < c.sizes.length ∧ l.putDone = true ∧ idx ∉ l.stored := by
        simpa [Ledger.expect] using pending
      obtain ⟨s', handled, net', sim''⟩ := sim'.store v lt new
      exact ⟨s', handled, _, ok.store here, by rw [net', List.append_nil, ← erased], sim''⟩
    | getSlice idx =>
      obtain ⟨lt, -, -⟩ : idx < c.sizes.length ∧ l.getDone = true ∧ idx ∉ l.served := by
        simpa [Ledger.expect] using pending
      by_cases put : idx ∈ l.stored
      · obtain ⟨s', handled, net', sim''⟩ := sim'.serve v small lt put
        exact ⟨s', handled, _, ok.serve here, by rw [net', List.map_append, ← erased]; rfl, sim''⟩
      · obtain ⟨s', handled, net', sim''⟩ := sim'.requeue lt put
        exact ⟨s', handled, _, ok.requeue here, by rw [net', List.map_append, ← erased]; rfl, sim''⟩
    | response idx =>
      obtain ⟨lt, served, new⟩ : idx < c.sizes.length ∧ idx ∈ l.served ∧ idx ∉ l.parsed := by
        simpa [Ledger.expect] using pending
      obtain ⟨s', handled, net', sim''⟩ := sim'.parse v (ok.served idx served) lt served new
      exact ⟨s', handled, _, ok.parse here, by rw [net', List.append_nil, ← erased], sim''⟩

omit [Field α] in
/-- The ids in the header of a message in flight survive packing. -/
theorem FewIds.survives (few : c.FewIds) {l : Ledger} (ok : l.Ok c.sizes.length) {t : Token} (mem : t ∈ l.tokens) :
    (c.packet t).msg.Survives := by
  have zero : (0 : Int) ≤ 0 ∧ (0 : Int) < 2 ^ 8 := by decide
  have noSlice : (0 : Int) ≤ 0 ∧ (0 : Int) < 2 ^ 16 := by decide
  obtain ⟨i, here⟩ := List.mem_iff_getElem?.mp mem
  have pending := ok.pending here
  have putProc := few.procs c.putProc (by simp)
  have getProc := few.procs c.getProc (by simp)
  have putGrp := few.groups c.putGrp (by simp)
  have getGrp := few.groups c.getGrp (by simp)
  have target (idx : Nat) (lt : idx < c.sizes.length) : paramID (paramTrgt c.owner (c.start + idx : Nat)) = c.owner ∧
      sliceID (paramTrgt c.owner (c.start + idx : Nat)) = (c.start + idx : Nat) :=
    paramTrgt_of_small few.owner (by have := few.slices; omega)
  have server (idx : Nat) (lt : idx < c.sizes.length) :=
    unpacks_of_small (few.groups c.dst (by simp)) (few.servers idx lt) .kServer
  cases t with
  | put => exact ⟨unpacks_of_small putGrp zero _, .inr rfl, paramTrgt_of_small few.owner noSlice⟩
  | get => exact ⟨unpacks_of_small getGrp zero _, .inr rfl, paramTrgt_of_small few.owner noSlice⟩
  | putSlice idx =>
    have lt : idx < c.sizes.length := by
      by_contra ge
      simp [Ledger.expect, ge] at pending
    exact ⟨unpacks_of_small putGrp putProc _, .inl (server idx lt), target idx lt⟩
  | getSlice idx =>
    have lt : idx < c.sizes.length := by
      by_contra ge
      simp [Ledger.expect, ge] at pending
    exact ⟨unpacks_of_small getGrp getProc _, .inl (server idx lt), target idx lt⟩
  | response idx =>
    have lt : idx < c.sizes.length := by
      by_contra ge
      simp [Ledger.expect, ge] at pending
    exact ⟨server idx lt, .inl (unpacks_of_small getGrp getProc _), target idx lt⟩

/-- **Put and get reassemble the parameter** when slices that are copied have less than 2²⁹ floats and ids fit
their bits: whatever the order in which messages are handled, no check fails, and every state reached is as
described by `Outcome`. -/
theorem put_get_reassembles (start : c.Start s) (small : c.Small) (few : c.FewIds) (schedule : List Nat) :
    ∃ s', schedule.foldlM (System.deliver c.site) s = .ok s' ∧ c.Outcome s' ∧
      ∀ packet ∈ s'.net, packet.msg.Survives := by
  have first : s.net = Ledger.initial.tokens.map c.packet := start.net
  obtain ⟨s', run, l, ok, net, sim⟩ := Run.foldlM_total c.Reached
    (fun s i inv => by
      obtain ⟨l, ok, net, sim⟩ := inv
      exact sim.deliver start.valid small ok net i)
    schedule ⟨Ledger.initial, Ledger.initial_ok _, first, start.sim⟩
  refine ⟨s', run, sim.outcome start.valid ok net, fun packet mem => ?_⟩
  rw [net] at mem
  obtain ⟨t, here, rfl⟩ := List.mem_map.mp mem
  exact few.survives ok here

/-! ## A transfer between two processes -/

/-- Three floats in two slices, the first kept in the putting and the second in the getting process. -/
def twoSlices : Transfer ℚ where
  site := ⟨⟨⟨1, 1, 2, 2⟩, fun _ id => id⟩, [0, 1], ⟨fun _ _ data grad history => (data, grad, history), fun _ x _ => x⟩⟩
  putProc := 0
  putGrp := 0
  getProc := 1
  getGrp := 0
  owner := 0
  start := 0
  sizes := [1, 2]
  putPtr := ⟨0, 0⟩
  getPtr := ⟨0, 0⟩
  learningRate := 1
  weightDecay := 1
  numTotal := 2
  putVersion := 5
  getVersion := 3
  oldVersion := -1
  values := [7, 8, 9]

/-- A share of the parameter in either process. -/
def twoSlicesParam : Param ℚ where
  localVersion := -1
  sliceStart := 0
  numSlices := 2
  sliceOffset := [0, 1]
  sliceSize := [1, 2]
  pendingPut := [false, false]
  pendingGet := [false, false]
  pendingUpdate := [false, false]
  numPendingRequests := 0
  data := ⟨3, -1, ⟨0, 0⟩⟩
  grad := ⟨3, -1, ⟨1, 0⟩⟩
  history := []
  proto := ⟨0, 0, 1, 1⟩

def twoProcesses : System ℚ where
  procs proc := {
    mem := ⟨fun blk off => if proc = 0 ∧ blk = 0 then off + 7 else 0, 2⟩
    workerShard := fun _ => some ⟨0, -1, 1, 2, [twoSlicesParam]⟩
    serverShard := fun _ => none }
  servers _ := ⟨0, 0, [0, 0], fun _ => [], fun _ => none, [], 0⟩
  net := [twoSlices.packet .put, twoSlices.packet .get]

theorem twoSlices_keeps : twoSlices.Keeps ⟨0, 0⟩ twoSlicesParam :=
  ⟨⟨rfl, rfl, by decide, rfl⟩, rfl, rfl, rfl, rfl⟩

theorem twoProcesses_start : twoSlices.Start twoProcesses where
  valid := ⟨by decide, rfl, by decide, by decide, rfl, by decide, by decide, fun same => absurd same (by decide)⟩
  net := rfl
  putter := ⟨_, twoSlicesParam, rfl, ⟨[], rfl⟩, twoSlices_keeps, rfl, rfl, rfl⟩
  getter := ⟨_, twoSlicesParam, [], rfl, rfl, twoSlices_keeps, by decide, rfl, rfl, rfl⟩
  values := by decide +kernel
  putBlk := by decide
  getBlk := by decide
  absent := fun _ _ => rfl
  table := by
    intro idx lt
    match idx, lt with
    | 0, _ => exact ⟨0, rfl⟩
    | 1, _ => exact ⟨0, rfl⟩

theorem twoSlices_small : twoSlices.Small := by
  intro idx lt _
  match idx, lt with
  | 0, _ => decide
  | 1, _ => decide

theorem twoSlices_fewIds : twoSlices.FewIds := ⟨by decide, by decide, by decide, by decide, by decide⟩

/-- The second slice is asked for before it is put. -/
theorem twoProcesses_run : ([1, 2, 0, 2, 0, 1, 0, 0, 0].foldlM (System.deliver twoSlices.site) twoProcesses).map
      (fun s => (s.net.length, (s.procs 1).mem.read ⟨0, 0⟩ 3)) = .ok (0, [7, 8, 9]) := by
  decide +kernel

theorem put_get_reassembles_run : ∃ s', [1, 2, 0, 2, 0, 1, 0, 0, 0].foldlM (System.deliver twoSlices.site)
      twoProcesses = .ok s' ∧ twoSlices.Outcome s' ∧ s'.net = [] ∧ (s'.procs 1).mem.read ⟨0, 0⟩ 3 = [7, 8, 9] := by
  obtain ⟨s', run, outcome, -⟩ :=
    put_get_reassembles twoProcesses_start twoSlices_small twoSlices_fewIds [1, 2, 0, 2, 0, 1, 0, 0, 0]
  have reached := twoProcesses_run
  rw [run] at reached
  obtain ⟨none, values⟩ := Prod.mk.inj (Except.ok.inj reached)
  exact ⟨s', run, outcome, List.length_eq_zero_iff.mp none, values⟩

/-! ## A slice of 2³⁰ floats -/

/-- The same processes, with one large slice that is kept by the getting process. -/
def gigaSlice : Transfer ℚ :=
  { twoSlices with
    site := { twoSlices.site with slice2server := [1] }
    sizes := [2 ^ 30]
    values := List.replicate (2 ^ 30) 7 }

def gigaSliceParam : Param ℚ :=
  { twoSlicesParam with
    numSlices := 1
    sliceOffset := [0]
    sliceSize := [2 ^ 30]
    pendingPut := [false]
    pendingGet := [false]
    pendingUpdate := [false]
    data := ⟨2 ^ 30, -1, ⟨0, 0⟩⟩
    grad := ⟨2 ^ 30, -1, ⟨1, 0⟩⟩ }

def gigaEntry : ParamEntry ℚ := ⟨0, -1, 1, 2, [gigaSliceParam]⟩

def gigaProcesses : System ℚ where
  procs _ := ⟨⟨fun _ _ => 7, 2⟩, fun _ => some gigaEntry, fun _ => none⟩
  servers _ := ⟨0, 0, [0], fun _ => [], fun _ => none, [], 0⟩
  net := [gigaSlice.packet .put, gigaSlice.packet .get]

theorem gigaSlice_keeps : gigaSlice.Keeps ⟨0, 0⟩ gigaSliceParam :=
  ⟨⟨rfl, rfl, by decide, rfl⟩, rfl, rfl, rfl, rfl⟩

theorem gigaProcesses_start : gigaSlice.Start gigaProcesses where
  valid := ⟨by decide, rfl, by decide, by decide, List.length_replicate, by decide, by decide,
    fun same => absurd same (by decide)⟩
  net := rfl
  putter := ⟨gigaEntry, gigaSliceParam, rfl, ⟨[], rfl⟩, gigaSlice_keeps, rfl, rfl, rfl⟩
  getter := ⟨gigaEntry, gigaSliceParam, [], rfl, rfl, gigaSlice_keeps, by decide, rfl, rfl, rfl⟩
  values := by
    show (List.range (List.sum [2 ^ 30])).map (fun _ => (7 : ℚ)) = List.replicate (2 ^ 30) 7
    rw [List.map_const', List.length_range, List.sum_singleton]
  putBlk := by decide
  getBlk := by decide
  absent := fun _ _ => rfl
  table := by
    intro idx lt
    match idx, lt with
    | 0, _ => exact ⟨0, rfl⟩

/-- Its bytes are 0 as an `int`. -/
theorem frameFloats_giga (m : Mem ℚ) (ptr : Ptr) : frameFloats (m.read ptr (2 ^ 30)) = .ok [] := by
  have bytes : intBytes (4 * (m.read ptr (2 ^ 30)).length) = 0 := by
    rw [Mem.read_length]
    decide
  rw [frameFloats, bytes]
  rfl

/-- The put of the large slice has an empty frame, and its server aborts. -/
theorem gigaSlice_frameSize : gigaSlice.Start gigaProcesses ∧ gigaSlice.FewIds ∧
    [0, 1].foldlM (System.deliver gigaSlice.site) gigaProcesses = .error .frameSize := by
  refine ⟨gigaProcesses_start, ⟨by decide, by decide, by decide, by decide, by decide⟩, ?_⟩
  let t := gigaSlice.site.trainer 0
  let head : Frame ℚ := .format [.int (2 ^ 30 : Nat), .float 1, .float 1, .ptr none]
  have made : t.handlePut ⟨fun _ _ => 7, 2⟩ gigaEntry (gigaSlice.packet .put).msg.hop =
      .ok (gigaEntry, [gigaSlice.request .kPut 0 0 5 0 [head, .data [], .format [.int 2]]]) :=
    genMsgs_put (by decide) rfl gigaSlice_keeps.tiled.tabled (gigaSlice_keeps.serves gigaProcesses_start.valid 0)
      (by decide) (fun _ => []) (by
      intro i lt _
      obtain rfl : i = 0 := Nat.lt_one_iff.mp lt
      exact frameFloats_giga _ _)
  let left : System ℚ := { gigaProcesses with net := [gigaSlice.packet .get] }
  have sent : left.handle gigaSlice.site (gigaSlice.packet .put) = .ok _ :=
    System.handle_stub rfl (handleLocalMsg_put rfl rfl made)
  have refused (h : Host ℚ) (absent : h.shard 0 = none) : h.receive gigaSlice.site.cluster gigaSlice.site.env
      (gigaSlice.request .kPut 0 0 5 0 [head, .data [], .format [.int 2]]) = .error .frameSize :=
    Host.receive_put_error rfl absent (Param.handlePutMsg_short rfl (by decide) (by decide) rfl)
  have first : System.deliver gigaSlice.site gigaProcesses 0 = _ := sent
  rw [List.foldlM_cons]
  refine Run.do_error.mpr (.inr ⟨_, first, ?_⟩)
  rw [List.foldlM_cons]
  refine Run.do_error.mpr (.inl (Run.do_error.mpr (.inl (refused _ rfl))))

end Transfer
end Singa
