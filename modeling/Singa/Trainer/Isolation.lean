import Singa.Trainer.GradMean
import Singa.Trainer.Groups

/-!
# Requests of several worker groups for one slice

`Server::HandleUpdate` keeps one buffer and one counter for a slice, whatever
worker group the requests come from. A process sends its next request only after
its last one was answered, so the buffer never holds two requests of a process;
but it can hold requests of two groups, and then it fires, or fails its
`CHECK_EQ`, with a mixture of them. That takes a second group beside one that is
spread over several processes.
-/

namespace Singa
set_option autoImplicit false

variable {α : Type}

namespace Host

open GroupPart

/-- `msg` is the request of the part `e` for a slice of `size` floats. -/
structure Asks (slice : Int) (size : Nat) (e : GroupPart) (msg : Msg α) : Prop where
  src : msg.src = e.stubAddr
  sliceId : msg.sliceId = slice
  request : Request size e.numLocal msg

/-- The server has the slice, and no request for it. -/
structure Entered (h : Host α) (slice : Int) (size : Nat) (total : Int) : Prop where
  entry : ∃ entry p, h.shard slice = some entry ∧ entry.shares = [p] ∧ p.size = size ∧ entry.numTotal = total ∧
    entry.numUpdate = 0
  buffer : h.server.bufferRequests slice = []

/-- The requests of exactly the parts of one group. -/
def Isolated (parts : List GroupPart) (requests : List (Msg α)) : Prop :=
  ∃ grp, (requests.map Msg.src).Perm ((ofGroup parts grp).map stubAddr)

section Asked

variable [Add α] [Div α] [NatCast α] (env : Env α) (parts : List GroupPart) (slice : Int) (size : Nat) (start : Host α)

/-- The requests arrive in any order. The parts in `waiting` have not got their answers, and send no other request
until they have. -/
inductive Asked : Host α → List Addr → Prop
  | start : Asked start []
  | ask {h h' : Host α} {waiting : List Addr} {e : GroupPart} {msg : Msg α} {out : List (Msg α)} :
      Asked h waiting → e ∈ parts → Asks slice size e msg → e.stubAddr ∉ waiting →
        h.handleUpdate env msg = .ok (h', out) →
        Asked h' ((waiting ++ [e.stubAddr]).filter fun a => a ∉ out.map Msg.dst)

/-- No request makes the `CHECK_EQ` fail, and whenever the entry fires, the requests are those of one group. -/
def Isolates : Prop :=
  ∀ (h : Host α) (waiting : List Addr) (e : GroupPart) (msg : Msg α), Asked env parts slice size start h waiting →
    e ∈ parts → Asks slice size e msg → e.stubAddr ∉ waiting →
    ∃ h' out, h.handleUpdate env msg = .ok (h', out) ∧
      (out ≠ [] → Isolated parts (h.server.bufferRequests slice ++ [msg]))

end Asked

/-- The buffered requests are those of the parts that wait, and the counter is the number of their shares. -/
structure Buffered (parts : List GroupPart) (slice : Int) (size : Nat) (total : Int) (h : Host α)
    (entry : ParamEntry α) (p : Param α) (es : List GroupPart) : Prop where
  found : h.shard slice = some entry
  entryShares : entry.shares = [p]
  sized : p.size = size
  total : entry.numTotal = total
  count : entry.numUpdate = shares es
  known : ∀ e ∈ es, e ∈ parts
  nodup : es.Nodup
  buffer : List.Forall₂ (Asks slice size) es (h.server.bufferRequests slice)

section Steps

variable {parts es : List GroupPart} {slice : Int} {size : Nat} {total : Int} {h h' start : Host α}
  {entry : ParamEntry α} {p : Param α} {waiting : List Addr} {e : GroupPart} {msg : Msg α} {out : List (Msg α)}

theorem Asks.map_src {msgs : List (Msg α)} (asks : List.Forall₂ (Asks slice size) es msgs) :
    msgs.map Msg.src = es.map stubAddr := by
  induction asks with
  | nil => rfl
  | cons first _ ih => rw [List.map_cons, List.map_cons, first.src, ih]

/-- The answers go where the requests came from. -/
theorem Answers.map_dst {msgs rs : List (Msg α)} (answers : List.Forall₂ (Param.Answers size) msgs rs) :
    rs.map Msg.dst = msgs.map Msg.src := by
  induction answers with
  | nil => rfl
  | cons first _ ih => rw [List.map_cons, List.map_cons, first.dst, ih]

theorem Asks.of_mem {msgs : List (Msg α)} (asks : List.Forall₂ (Asks slice size) es msgs) :
    ∀ r ∈ msgs, ∃ e ∈ es, Asks slice size e r := by
  induction asks with
  | nil => simp
  | @cons e msg es msgs first _ ih =>
    intro r mem
    rcases List.mem_cons.mp mem with rfl | mem
    · exact ⟨e, List.mem_cons_self, first⟩
    · obtain ⟨e', mem', asks⟩ := ih r mem
      exact ⟨e', List.mem_cons_of_mem e mem', asks⟩

theorem Buffered.requests (inv : Buffered parts slice size total h entry p es) :
    ∀ r ∈ h.server.bufferRequests slice, ∃ numLocal, Request p.size numLocal r := by
  intro r mem
  obtain ⟨e, -, asks⟩ := Asks.of_mem inv.buffer r mem
  exact ⟨e.numLocal, inv.sized ▸ asks.request⟩

theorem Buffered.concat (inv : Buffered parts slice size total h entry p es) (asks : Asks slice size e msg) :
    List.Forall₂ (Asks slice size) (es ++ [e]) (h.server.bufferRequests slice ++ [msg]) :=
  List.rel_append inv.buffer (.cons asks .nil)

/-- Requests of exactly one group's parts are of one group. -/
theorem Isolated.same_grp {requests : List (Msg α)} (isolated : Isolated parts requests) {r r' : Msg α}
    (hr : r ∈ requests) (hr' : r' ∈ requests) : r.src.grp = r'.src.grp := by
  obtain ⟨grp, perm⟩ := isolated
  have ofGrp {r : Msg α} (hr : r ∈ requests) : r.src.grp = grp := by
    obtain ⟨x, hx, same⟩ := List.mem_map.mp (perm.mem_iff.mp (List.mem_map_of_mem hr))
    rw [← same]
    simpa using (List.mem_filter.mp hx).2
  rw [ofGrp hr, ofGrp hr']

theorem Entered.buffered (parts : List GroupPart) (entered : start.Entered slice size total) :
    ∃ entry p, Buffered parts slice size total start entry p [] := by
  obtain ⟨entry, p, found, entryShares, sized, total, none⟩ := entered.entry
  refine ⟨entry, p, found, entryShares, sized, total, none, by simp, .nil, ?_⟩
  rw [entered.buffer]
  exact .nil

variable [Add α] [Div α] [NatCast α] {env : Env α}

/-- Before the last share the request is buffered. -/
theorem Buffered.wait (env : Env α) (inv : Buffered parts slice size total h entry p es) (mem : e ∈ parts)
    (asks : Asks slice size e msg) (free : e ∉ es) (few : entry.numUpdate + e.numLocal < entry.numTotal) :
    ∃ h' entry', h.handleUpdate env msg = .ok (h', []) ∧ Buffered parts slice size total h' entry' p (es ++ [e]) := by
  have request := asks.request
  rw [← inv.sized] at request
  have found := inv.found
  rw [← asks.sliceId] at found
  refine ⟨_, { entry with numUpdate := entry.numUpdate + e.numLocal },
    handleUpdate_buffer found inv.entryShares request few, ?_⟩
  rw [asks.sliceId]
  refine ⟨Function.update_self .., inv.entryShares, inv.sized, inv.total, ?_, ?_, ?_, ?_⟩
  · rw [shares_concat, ← inv.count]
  · intro x hx
    rcases List.mem_append.mp hx with hx | hx
    · exact inv.known x hx
    · exact List.mem_singleton.mp hx ▸ mem
  · exact List.nodup_append.mpr ⟨inv.nodup, List.nodup_singleton e, fun a ha b hb same =>
      free (List.mem_singleton.mp hb ▸ same ▸ ha)⟩
  · simpa [setEntry, setBuffer] using inv.concat asks

/-- At the last share all are answered. -/
theorem Buffered.fire (env : Env α) (inv : Buffered parts slice size total h entry p es) (asks : Asks slice size e msg)
    (all : entry.numUpdate + e.numLocal = entry.numTotal) : ∃ h' entry' p' out, h.handleUpdate env msg = .ok (h', out) ∧
      Buffered parts slice size total h' entry' p' [] ∧ out.map Msg.dst = (es ++ [e]).map stubAddr := by
  have request := asks.request
  rw [← inv.sized] at request
  have found := inv.found
  rw [← asks.sliceId] at found
  have buffered := inv.requests
  rw [← asks.sliceId] at buffered
  obtain ⟨_, _, mem, p', rs, -, -, -, fired, answers, run⟩ :=
    handleUpdate_fire env found inv.entryShares request all buffered
  refine ⟨_, { entry with numUpdate := 0, shares := [p'] }, p', _, run, ?_, ?_⟩
  · rw [asks.sliceId]
    refine ⟨Function.update_self .., rfl, fired.size.trans inv.sized, inv.total, rfl, by simp, .nil, ?_⟩
    simp [setEntry, setBuffer]
  · rw [List.map_map, ← Asks.map_src (inv.concat asks), ← asks.sliceId, ← Answers.map_dst answers]
    rfl

/-- A request that is handled counts for no more shares than the total. -/
theorem Buffered.le_total (inv : Buffered parts slice size total h entry p es) (asks : Asks slice size e msg)
    (run : h.handleUpdate env msg = .ok (h', out)) : entry.numUpdate + e.numLocal ≤ entry.numTotal := by
  by_contra many
  have found := inv.found
  rw [← asks.sliceId] at found
  have abort : h.handleUpdate env msg = .error .numUpdate :=
    handleUpdate_abort found inv.entryShares (inv.sized.symm ▸ asks.request) (not_le.mp many)
  rw [run] at abort
  cases abort

/-- Every state that the requests lead to. -/
theorem Asked.buffered (entered : start.Entered slice size total)
    (asked : Asked env parts slice size start h waiting) : ∃ entry p es, Buffered parts slice size total h entry p es ∧
      (es = [] ∨ shares es < total) ∧ waiting = es.map stubAddr := by
  induction asked with
  | start =>
    obtain ⟨entry, p, inv⟩ := entered.buffered parts
    exact ⟨entry, p, [], inv, .inl rfl, rfl⟩
  | @ask h h' waiting e msg out _ mem asks free run ih =>
    obtain ⟨entry, p, es, inv, -, rfl⟩ := ih
    have fresh : e ∉ es := fun here => free (List.mem_map_of_mem here)
    rcases lt_trichotomy (entry.numUpdate + e.numLocal) entry.numTotal with few | all | many
    · obtain ⟨h'', entry', run', inv'⟩ := inv.wait env mem asks fresh few
      rw [run] at run'
      cases run'
      refine ⟨entry', p, _, inv', .inr ?_, by simp⟩
      rwa [shares_concat, ← inv.count, ← inv.total]
    · obtain ⟨h'', entry', p', out', run', inv', answered⟩ := inv.fire env asks all
      rw [run] at run'
      cases run'
      refine ⟨entry', p', [], inv', .inl rfl, ?_⟩
      rw [List.map_nil, List.filter_eq_nil_iff]
      intro a ha
      rw [answered, List.map_append, decide_eq_true_eq, not_not]
      exact ha
    · have le := inv.le_total asks run
      omega

/-- With requests of its own group only, a request is buffered or fires with exactly that group's. -/
theorem Buffered.isolates (groups : Groups parts total) (inv : Buffered parts slice size total h entry p es)
    (mem : e ∈ parts) (asks : Asks slice size e msg) (fresh : e ∉ es) (same : ∀ x ∈ es, x.grp = e.grp) :
    ∃ h' out, h.handleUpdate env msg = .ok (h', out) ∧
      (out ≠ [] → Isolated parts (h.server.bufferRequests slice ++ [msg])) := by
  have nodup : (es ++ [e]).Nodup := List.nodup_append.mpr ⟨inv.nodup, List.nodup_singleton e, fun a ha b hb here =>
    fresh (List.mem_singleton.mp hb ▸ here ▸ ha)⟩
  have within : ∀ x ∈ es ++ [e], x ∈ ofGroup parts e.grp := by
    intro x hx
    rcases List.mem_append.mp hx with hx | hx
    · exact List.mem_filter.mpr ⟨inv.known x hx, by simpa using same x hx⟩
    · rw [List.mem_singleton.mp hx]
      exact List.mem_filter.mpr ⟨mem, by simp⟩
  obtain ⟨le, whole⟩ := groups.shares_le mem nodup within
  rw [shares_concat, ← inv.count, ← inv.total] at le
  rw [shares_concat, ← inv.count, ← inv.total] at whole
  rcases le.lt_or_eq with few | all
  · obtain ⟨h', entry', run, -⟩ := inv.wait env mem asks fresh few
    exact ⟨h', [], run, fun some => absurd rfl some⟩
  · obtain ⟨h', entry', p', out, run, -, -⟩ := inv.fire env asks all
    refine ⟨h', out, run, fun _ => ⟨e.grp, ?_⟩⟩
    rw [Asks.map_src (inv.concat asks)]
    exact (whole all.ge).map stubAddr

omit [Add α] [Div α] in
/-- A part can always make a request. -/
theorem Asks.exists (slice : Int) (size : Nat) (e : GroupPart) : ∃ msg : Msg α, Asks slice size e msg :=
  ⟨{ src := e.stubAddr, sliceId := slice
     frames := [.format [.int (flag true)], .data (List.replicate size ((0 : Nat) : α)), .format [.int e.numLocal]] },
    rfl, rfl, rfl, true, _, .copied _ (by simp), rfl⟩

/-- While requests are buffered, a run that asks the parts of `rest` one after another comes to a firing, and the
requests in the buffer are of the group of one of them. -/
theorem Buffered.mixes (isolates : Isolates env parts slice size start) (rest : List GroupPart)
    (inv : Buffered parts slice size total h entry p es) (asked : Asked env parts slice size start h (es.map stubAddr))
    (distinct : (parts.map stubAddr).Nodup) (below : entry.numUpdate < total) (within : ∀ x ∈ rest, x ∈ parts)
    (nodup : (es ++ rest).Nodup) (many : total < shares (es ++ rest)) : ∃ x ∈ rest, ∀ y ∈ es, y.grp = x.grp := by
  induction rest generalizing h entry es with
  | nil =>
    rw [List.append_nil, ← inv.count] at many
    omega
  | cons x rest ih =>
    have mem := within x List.mem_cons_self
    have fresh : x ∉ es := fun here => (List.nodup_append.mp nodup).2.2 x here x List.mem_cons_self rfl
    have free : x.stubAddr ∉ es.map stubAddr := by
      intro here
      obtain ⟨y, hy, same⟩ := List.mem_map.mp here
      exact fresh (List.inj_on_of_nodup_map distinct (inv.known y hy) mem same ▸ hy)
    obtain ⟨msg, asks⟩ : ∃ msg : Msg α, Asks slice size x msg := Asks.exists slice size x
    have step {h' : Host α} {out : List (Msg α)} (run : h.handleUpdate env msg = .ok (h', out)) :=
      asked.ask mem asks free run
    rcases lt_or_ge (entry.numUpdate + x.numLocal) entry.numTotal with few | full
    · obtain ⟨h', entry', run, inv'⟩ := inv.wait env mem asks fresh few
      have asked' := step run
      have split : es ++ x :: rest = es ++ [x] ++ rest := by simp
      rw [List.map_nil, List.filter_eq_self.mpr (by simp)] at asked'
      rw [split] at nodup many
      obtain ⟨z, hz, same⟩ := ih inv' (by simpa using asked')
        (by rw [inv'.count, shares_concat, ← inv.count]; exact inv.total ▸ few)
        (fun y hy => within y (List.mem_cons_of_mem x hy)) nodup many
      exact ⟨z, List.mem_cons_of_mem x hz, fun y hy => same y (List.mem_append_left _ hy)⟩
    · obtain ⟨h', out, run, isolated⟩ := isolates h _ x msg asked mem asks free
      obtain ⟨h'', entry', p', out', run', -, answered⟩ := inv.fire env asks (le_antisymm (inv.le_total asks run) full)
      rw [run] at run'
      cases run'
      have some : out ≠ [] := by
        rintro rfl
        simp at answered
      refine ⟨x, List.mem_cons_self, fun y hy => ?_⟩
      have source : y.stubAddr ∈ (h.server.bufferRequests slice).map Msg.src := by
        rw [Asks.map_src inv.buffer]
        exact List.mem_map_of_mem hy
      obtain ⟨r, hr, here⟩ := List.mem_map.mp source
      have same := (isolated some).same_grp (List.mem_append_left _ hr) (List.mem_append_right _ List.mem_cons_self)
      rw [here, asks.src] at same
      simpa using same

/-- A first request that does not fire is answered together with one of its own group, whatever comes after it. -/
theorem Entered.meets (entered : start.Entered slice size total) (isolates : Isolates env parts slice size start)
    (distinct : (parts.map stubAddr).Nodup) (he : e ∈ parts) (room : e.numLocal < total) (rest : List GroupPart)
    (within : ∀ x ∈ rest, x ∈ parts) (nodup : (e :: rest).Nodup) (many : total < shares (e :: rest)) :
    ∃ x ∈ rest, e.grp = x.grp := by
  obtain ⟨entry, p, inv⟩ := entered.buffered parts
  obtain ⟨msg, asks⟩ : ∃ msg : Msg α, Asks slice size e msg := Asks.exists slice size e
  have none : entry.numUpdate = 0 := by rw [inv.count, shares_nil]
  obtain ⟨h', entry', run, inv'⟩ := inv.wait env he asks List.not_mem_nil (by rw [none, inv.total]; omega)
  have asked : Asked env parts slice size start h' ([e].map stubAddr) := by
    simpa using Asked.start.ask he asks List.not_mem_nil run
  obtain ⟨x, hx, grp⟩ := inv'.mixes isolates rest asked distinct (by rw [inv'.count]; simpa [shares] using room) within
    nodup many
  exact ⟨x, hx, grp e List.mem_cons_self⟩

/-- **Worker groups are isolated at a server** in every run exactly when there is one group only, or no group has
two processes. -/
theorem isolates_iff (groups : Groups parts total) (entered : start.Entered slice size total) :
    Isolates env parts slice size start ↔
      (∀ e ∈ parts, ∀ e' ∈ parts, e.grp = e'.grp) ∨ ∀ e ∈ parts, ∀ e' ∈ parts, e.grp = e'.grp → e = e' := by
  constructor
  · intro isolates
    by_contra both
    rw [not_or] at both
    obtain ⟨several, spread⟩ := both
    push Not at several spread
    obtain ⟨e, he, e', he', same, different⟩ := spread
    obtain ⟨o, ho, apart⟩ : ∃ o ∈ parts, o.grp ≠ e.grp := by
      obtain ⟨a, ha, b, hb, ne⟩ := several
      by_cases here : a.grp = e.grp
      · exact ⟨b, hb, fun there => ne (here.trans there.symm)⟩
      · exact ⟨a, ha, here⟩
    obtain ⟨x, hx, grp⟩ := entered.meets isolates groups.distinct he
      (groups.numLocal_lt he he' same different) (ofGroup parts o.grp) (fun x hx => (List.mem_filter.mp hx).1)
      (by
        refine List.nodup_cons.mpr ⟨fun here => apart ?_, (groups.distinct.of_map stubAddr).filter _⟩
        exact (of_decide_eq_true (List.mem_filter.mp here).2).symm)
      (by
        have whole := groups.total o ho
        have more := groups.positive e he
        simp only [shares, List.map_cons, List.sum_cons] at whole ⊢
        omega)
    have here : x.grp = o.grp := by simpa using (List.mem_filter.mp hx).2
    exact apart (here ▸ grp.symm)
  · intro kind h waiting e msg asked mem asks free
    obtain ⟨entry, p, es, inv, below, rfl⟩ := asked.buffered entered
    have fresh : e ∉ es := fun here => free (List.mem_map_of_mem here)
    refine inv.isolates groups mem asks fresh fun x hx => ?_
    rcases kind with one | single
    · exact one x (inv.known x hx) e mem
    · -- a part that waits would have all the shares of its group
      have known := inv.known x hx
      have whole := groups.numLocal_eq known fun y hy same => single y hy x known same
      have le := numLocal_le_shares (fun y hy => groups.positive y (inv.known y hy)) hx
      rcases below with rfl | below
      · exact absurd hx List.not_mem_nil
      · omega

end Steps

theorem unit_entered {α : Type} [Field α] (total : Nat) : (Host.unit total : Host α).Entered 0 1 total :=
  ⟨⟨_, unitParam 0, rfl, rfl, rfl, rfl, rfl⟩, rfl⟩

/-- A group in two processes. -/
theorem twoProcesses_isolated : Isolates (recorder : Env ℚ) [⟨0, 0, 1⟩, ⟨0, 1, 1⟩] 0 1 (Host.unit 2) :=
  (isolates_iff ⟨by decide, by decide, by decide⟩ (unit_entered 2)).mpr (.inl (by decide))

/-- Two groups in two processes each: the first request of one group meets the requests of the other one. -/
theorem twoGroups_mixed :
    ¬ Isolates (recorder : Env ℚ) [⟨0, 0, 1⟩, ⟨0, 1, 1⟩, ⟨1, 2, 1⟩, ⟨1, 3, 1⟩] 0 1 (Host.unit 2) := by
  intro isolates
  obtain ⟨x, hx, grp⟩ := (unit_entered 2).meets isolates (e := ⟨0, 0, 1⟩) (by decide) (by decide) (by decide)
    [⟨1, 2, 1⟩, ⟨1, 3, 1⟩] (by decide) (by decide) (by decide)
  simp only [List.mem_cons, List.not_mem_nil, or_false] at hx
  rcases hx with rfl | rfl
  · cases grp
  · cases grp

end Host

end Singa
