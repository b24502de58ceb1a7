import Singa.Trainer.Sync

/-!
# A slice at its server, from the put on

Once a slice was put, its server keeps one parameter for it, whatever messages
come in. `Onward` says what one of them can make of that parameter: the proto
never changes, `local_version` counts the rounds of updates, and without other
server groups nothing touches the version that the put gave to the blob.
-/

namespace Singa
set_option autoImplicit false

open Memory

variable {α : Type}

namespace Param

variable {m m' : Mem α} {msg moved : Msg α} {p p' : Param α}

/-- The parameter has the size of the message and, whatever that says of the multipliers, the default ones. -/
theorem handlePutMsg_setup [Zero α] [One α] (run : handlePutMsg m msg = .ok (m', p, moved)) :
    p.proto = .default ∧ ∃ size lr wd ptr, msg.parseIFFP = .ok (size, lr, wd, ptr) ∧ p.size = size.toNat := by
  obtain ⟨⟨size, lr, wd, ptr⟩, parsed, run⟩ := Run.do_ok.mp run
  simp only at run
  split at run
  · cases run
  · cases ptr with
    | none =>
      simp only at run
      split at run
      · obtain ⟨values, -, run⟩ := Run.do_ok.mp run
        cases run
        exact ⟨rfl, size, lr, wd, _, parsed, rfl⟩
      · cases run
    | some ptr =>
      cases run
      exact ⟨rfl, size, lr, wd, _, parsed, rfl⟩

/-- Only pointers and bookkeeping changed. -/
structure Resting (p p' : Param α) : Prop where
  proto : p'.proto = p.proto
  size : p'.size = p.size
  version : p'.version = p.version
  localVersion : p'.localVersion = p.localVersion

theorem Resting.refl (p : Param α) : Resting p p := ⟨rfl, rfl, rfl, rfl⟩

theorem SameButGrad.resting (h : SameButGrad p p') : Resting p p' := by
  rw [h]
  exact ⟨rfl, rfl, rfl, rfl⟩

theorem handleGetMsg_resting (run : handleGetMsg m p msg = .ok (m', p', moved)) : Resting p p' := by
  obtain ⟨⟨copy, ptr⟩, -, run⟩ := Run.do_ok.mp run
  simp only at run
  split at run
  · obtain ⟨reply, -, run⟩ := Run.do_ok.mp run
    cases run
    exact .refl p
  · split at run
    · cases run
      exact .refl p
    · cases ptr with
      | none => cases run
      | some ptr =>
        cases run
        exact ⟨rfl, rfl, rfl, rfl⟩

end Param

namespace Host

/-- The server keeps the parameter `p` for the slice. -/
def Held (h : Host α) (slice : Int) (p : Param α) : Prop := ∃ entry, h.shard slice = some entry ∧ entry.shares = [p]

/-- There is no other server group. -/
def Alone (cluster : Cluster) (h : Host α) : Prop := ∀ i < cluster.proto.nserverGroups, (i : Int) = h.server.grpId

/-- Did the message complete a round of updates of the slice? `HandleUpdate` answers only then. -/
def completes (slice : Int) (msg : Msg α) (out : List (Msg α)) : Bool :=
  msg.type = .kUpdate && msg.sliceId = slice && !out.isEmpty

/-- What a message makes of the parameter of a slice. -/
structure Onward (alone : Prop) (slice : Int) (msg : Msg α) (out : List (Msg α)) (p p' : Param α) : Prop where
  proto : p'.proto = p.proto
  size : p'.size = p.size
  version : alone → p'.version = p.version
  localVersion : msg.type ≠ .kSyncRequest → p'.localVersion = p.localVersion + if completes slice msg out then 1 else 0

variable {h h' : Host α} {slice s : Int} {msg : Msg α} {entry : ParamEntry α} {p p' : Param α} {out : List (Msg α)}
  {alone : Prop}

theorem onward_of_resting (h : p.Resting p') (idle : completes slice msg out = false) : Onward alone slice msg out p p' :=
  ⟨h.proto, h.size, fun _ => h.version, fun _ => by simp [h.localVersion, idle]⟩

theorem Held.paramAt (held : h.Held slice p) : ∃ entry, entry.shares = [p] ∧ h.shard slice = some entry ∧
    h.paramAt slice = .ok (entry, p) := by
  obtain ⟨entry, found, shares⟩ := held
  exact ⟨entry, shares, found, paramAt_ok found shares⟩

theorem Held.setEntry (shares : entry.shares = [p']) : (h.setEntry slice entry).Held slice p' :=
  ⟨entry, Function.update_self .., shares⟩

theorem Held.setOther (held : h.Held slice p) (other : s ≠ slice) : (h.setEntry s entry).Held slice p := by
  obtain ⟨old, found, shares⟩ := held
  exact ⟨old, (Function.update_of_ne (Ne.symm other) ..).trans found, shares⟩

theorem setFront_shares (shares : entry.shares = [p]) : (entry.setFront p').shares = [p'] := by
  rw [ParamEntry.setFront, shares]
  rfl

section Put

theorem allocLastData_kept {cluster : Cluster} {values : List α} (run : h.allocLastData cluster s values = .ok h') :
    ∃ lastData, h' = { h with server := { h.server with lastData } } := by
  rw [allocLastData] at run
  split at run
  · obtain ⟨mine, -, run⟩ := Run.do_ok.mp run
    cases mine
    all_goals
      cases run
      exact ⟨_, rfl⟩
  · cases run
    exact ⟨_, rfl⟩

variable [Zero α] [One α]

/-- What a put leaves: the entry of a slice that was not there, at the version of the message. -/
theorem handlePut_new {cluster : Cluster} (run : h.handlePut cluster msg = .ok h') :
    ∃ total p, h.shard msg.sliceId = none ∧ h'.shard = Function.update h.shard msg.sliceId (some (.ofPut total p)) ∧
      (∃ lastData, h'.server = { h.server with lastData }) ∧ p.proto = { (.default : ParamProto α) with id := msg.sliceId, owner := msg.sliceId } ∧
      p.version = msg.trgtVersion ∧ p.localVersion = msg.trgtVersion ∧
      ∃ size lr wd ptr, msg.parseIFFP = .ok (size, lr, wd, ptr) ∧ p.size = size.toNat := by
  rw [handlePut] at run
  split at run
  · cases run
  · rename_i absent
    obtain ⟨⟨m', q, moved⟩, stored, run⟩ := Run.do_ok.mp run
    obtain ⟨total, -, run⟩ := Run.do_ok.mp run
    obtain ⟨lastData, rfl⟩ := allocLastData_kept run
    obtain ⟨proto, size⟩ := Param.handlePutMsg_setup stored
    refine ⟨total, _, absent, rfl, ⟨lastData, rfl⟩, ?_, rfl, rfl, size⟩
    rw [Param.setId, Param.setLocalVersion, Param.setVersion, proto]

theorem handlePut_held {cluster : Cluster} (held : h.Held slice p) (run : h.handlePut cluster msg = .ok h') :
    h'.Held slice p ∧ h'.server.grpId = h.server.grpId := by
  obtain ⟨total, q, absent, shard, ⟨lastData, server⟩, -⟩ := handlePut_new run
  obtain ⟨entry, found, shares⟩ := held
  have other : slice ≠ msg.sliceId := by
    rintro rfl
    rw [found] at absent
    cases absent
  refine ⟨⟨entry, ?_, shares⟩, by rw [server]⟩
  rw [shard, Function.update_of_ne other, found]

end Put

section Handlers

theorem completes_update (type : msg.type = .kUpdate) (some : out ≠ []) : completes msg.sliceId msg out = true := by
  simp [completes, type, some]

theorem completes_other (other : msg.type ≠ .kUpdate) : completes slice msg out = false := by
  simp [completes, other]

theorem handleGet_onward {reply : Msg α} (held : h.Held slice p) (run : h.handleGet msg = .ok (h', reply)) :
    ∃ p', h'.Held slice p' ∧ p.Resting p' ∧ h'.server = h.server := by
  obtain ⟨⟨entry, q⟩, here, run⟩ := Run.do_ok.mp run
  simp only at run
  split at run
  · cases run
    exact ⟨p, held, .refl p, rfl⟩
  · obtain ⟨⟨m', q', moved⟩, got, run⟩ := Run.do_ok.mp run
    cases run
    by_cases other : msg.sliceId = slice
    · subst other
      obtain ⟨entry', shares, -, param⟩ := held.paramAt
      rw [param] at here
      cases here
      exact ⟨q', Held.setEntry (setFront_shares shares), Param.handleGetMsg_resting got, rfl⟩
    · exact ⟨p, Held.setOther (h := { h with mem := m' }) held other, .refl p, rfl⟩

theorem Param.genUpdateResponseMsgs_ne_nil {m : Mem α} {msgs rs : List (Msg α)} (some : msgs ≠ [])
    (run : p.genUpdateResponseMsgs m msgs = .ok rs) : rs ≠ [] := by
  cases msgs with
  | nil => exact absurd rfl some
  | cons msg msgs =>
    rw [Param.genUpdateResponseMsgs, List.mapM_cons] at run
    obtain ⟨r, -, run⟩ := Run.do_ok.mp run
    obtain ⟨rest, -, run⟩ := Run.do_ok.mp run
    cases run
    exact List.cons_ne_nil r rest

theorem handleUpdate_onward [Add α] [Div α] [NatCast α] {env : Env α} (held : h.Held slice p)
    (type : msg.type = .kUpdate) (run : h.handleUpdate env msg = .ok (h', out)) :
    ∃ p', h'.Held slice p' ∧ Onward alone slice msg out p p' ∧ h'.server.grpId = h.server.grpId := by
  obtain ⟨entry, q, param, fired | ⟨numUpdate, rfl, rfl⟩⟩ := handleUpdate_cases run
  · obtain ⟨m', r, p', rs, parsed, rfl, responses, rfl, rfl⟩ := fired
    by_cases here : msg.sliceId = slice
    · subst here
      obtain ⟨entry', shares, -, found⟩ := held.paramAt
      rw [found] at param
      cases param
      have same := (Param.parseUpdateMsgs_same parsed).resting
      have some := Param.genUpdateResponseMsgs_ne_nil (by simp) responses
      refine ⟨_, Held.setEntry (setFront_shares shares), ⟨same.proto, same.size, fun _ => same.version, fun _ => ?_⟩, rfl⟩
      rw [if_pos (completes_update type (by simpa using some))]
      show r.localVersion + 1 = _
      rw [same.localVersion]
    · have idle (msgs : List (Msg α)) : completes slice msg msgs = false := by simp [completes, here]
      exact ⟨p, Held.setOther (h := ⟨_, h.shard, _⟩) held here, onward_of_resting (.refl p) (idle _), rfl⟩
  · have idle : completes slice msg [] = false := by simp [completes]
    by_cases here : msg.sliceId = slice
    · subst here
      obtain ⟨entry', shares, -, found⟩ := held.paramAt
      rw [found] at param
      cases param
      exact ⟨p, Held.setEntry shares, onward_of_resting (.refl p) idle, rfl⟩
    · exact ⟨p, Held.setOther (h := ⟨_, h.shard, _⟩) held here, onward_of_resting (.refl p) idle, rfl⟩

theorem handleSyncRequest_onward [Add α] [Sub α] {response : Option (Msg α)} (held : h.Held slice p)
    (type : msg.type = .kSyncRequest) (run : h.handleSyncRequest msg = .ok (h', response)) :
    ∃ p', h'.Held slice p' ∧ Onward alone slice msg out p p' ∧ h'.server.grpId = h.server.grpId := by
  have still : Onward alone slice msg out p p := ⟨rfl, rfl, fun _ => rfl, fun other => absurd type other⟩
  obtain ⟨entry, q, tmp, param, -, ⟨-, rfl, -⟩ | ⟨-, cur, prev, rfl⟩⟩ := handleSyncRequest_cases run
  · by_cases here : msg.sliceId = slice
    · subst here
      obtain ⟨entry', shares, -, found⟩ := held.paramAt
      rw [found] at param
      cases param
      exact ⟨_, Held.setEntry (setFront_shares shares), ⟨rfl, rfl, fun _ => rfl, fun other => absurd type other⟩, rfl⟩
    · exact ⟨p, Held.setOther (h := ⟨_, h.shard, _⟩) held here, still, rfl⟩
  · exact ⟨p, held, still, rfl⟩

/-- **What a reminder does** where the server does not abort: nothing, or it has a slice synchronised. -/
theorem handleSyncReminder_cases {cluster : Cluster} (run : h.handleSyncReminder cluster = .ok (h', out)) :
    (h' = h ∧ out = []) ∨ ∃ s mid syncEntry, genSyncMsgs cluster h s = .ok (mid, out) ∧
      h' = { mid with server := { mid.server with syncEntry } } := by
  rw [handleSyncReminder] at run
  split at run
  · cases run
    exact .inl ⟨rfl, rfl⟩
  · rename_i s master
    obtain ⟨⟨entry, p⟩, -, run⟩ := Run.do_ok.mp run
    simp only at run
    split at run
    · obtain ⟨⟨mid, ret⟩, gen, run⟩ := Run.do_ok.mp run
      cases run
      exact .inr ⟨s, mid, _, gen, rfl⟩
    · cases run
      exact .inl ⟨rfl, rfl⟩

/-- Without other groups a reminder sends nothing; with them it catches up the version. -/
theorem handleSyncReminder_onward {cluster : Cluster} (held : h.Held slice p) (type : msg.type = .kSyncReminder)
    (run : h.handleSyncReminder cluster = .ok (h', out)) :
    ∃ p', h'.Held slice p' ∧ Onward (h.Alone cluster) slice msg out p p' ∧ h'.server.grpId = h.server.grpId := by
  have idle : completes slice msg out = false := completes_other (by rw [type]; decide)
  have still : Onward (h.Alone cluster) slice msg out p p := onward_of_resting (.refl p) idle
  obtain ⟨rfl, rfl⟩ | ⟨s, mid, syncEntry, gen, rfl⟩ := handleSyncReminder_cases run
  · exact ⟨p, held, still, rfl⟩
  · obtain ⟨⟨entry, q⟩, param, gen⟩ := Run.do_ok.mp gen
    simp only at gen
    split at gen
    · cases gen
      exact ⟨p, held, still, rfl⟩
    · rename_i others
      cases gen
      have notAlone : ¬ h.Alone cluster := fun alone => others (by simpa [Alone] using alone)
      by_cases here : s = slice
      · subst here
        obtain ⟨entry', shares, -, found⟩ := held.paramAt
        rw [found] at param
        cases param
        have caught : (entry.setVersion p.localVersion).shares = [p.setVersion p.localVersion] := by
          simp [ParamEntry.setVersion, shares]
        refine ⟨_, Held.setEntry caught, ⟨rfl, rfl, fun alone => absurd alone notAlone, fun _ => ?_⟩, rfl⟩
        rw [completes_other (by rw [type]; decide)]
        exact (add_zero _).symm
      · exact ⟨p, Held.setOther held here, still, rfl⟩

/-- **One message** leaves the slice with one parameter, `Onward` from the one before. -/
theorem receive_onward [Add α] [Sub α] [Div α] [NatCast α] [Zero α] [One α] {cluster : Cluster} {env : Env α}
    (held : h.Held slice p) (run : h.receive cluster env msg = .ok (h', out)) :
    ∃ p', h'.Held slice p' ∧ Onward (h.Alone cluster) slice msg out p p' ∧ h'.server.grpId = h.server.grpId := by
  have still (idle : completes slice msg out = false) : Onward (h.Alone cluster) slice msg out p p :=
    onward_of_resting (.refl p) idle
  rw [receive] at run
  split at run
  · rename_i type
    have idle : completes slice msg out = false := completes_other (by rw [type]; decide)
    obtain ⟨mid, put, run⟩ := Run.do_ok.mp run
    obtain ⟨mine, -, run⟩ := Run.do_ok.mp run
    obtain ⟨kept, grp⟩ := handlePut_held held put
    cases mine
    all_goals
      cases run
      exact ⟨p, kept, still idle, grp⟩
  · split at run
    · rename_i absent
      have other : msg.sliceId ≠ slice := by
        rintro rfl
        obtain ⟨entry, found, -⟩ := held
        rw [found] at absent
        cases absent
      cases run
      exact ⟨p, held, still (by simp [completes, other]), rfl⟩
    · split at run
      · exact handleSyncReminder_onward held ‹_› run
      · rename_i type
        obtain ⟨⟨mid, reply⟩, got, run⟩ := Run.do_ok.mp run
        cases run
        obtain ⟨p', kept, resting, server⟩ := handleGet_onward held got
        exact ⟨p', kept, onward_of_resting resting (completes_other (by rw [type]; decide)), by rw [server]⟩
      · exact handleUpdate_onward held ‹_› run
      · rename_i type
        obtain ⟨⟨mid, response⟩, sync, run⟩ := Run.do_ok.mp run
        cases run
        exact handleSyncRequest_onward held type sync
      · rename_i update _
        cases run
        exact ⟨p, held, still (completes_other update), rfl⟩

end Handlers

section Runs

variable [Add α] [Sub α] [Div α] [NatCast α] [Zero α] [One α] {cluster : Cluster} {env : Env α}

/-- One pass of `Server::Run`, with the number of rounds completed for the slice so far. -/
def serve (cluster : Cluster) (env : Env α) (slice : Int) (s : Host α × Nat) (msg : Msg α) : Run (Host α × Nat) := do
  let (h, out) ← s.1.receive cluster env msg
  .ok (h, s.2 + if completes slice msg out then 1 else 0)

/-- What a run leaves of the parameter of a slice. -/
structure Lasted (alone : Prop) (msgs : List (Msg α)) (rounds : Nat) (p p' : Param α) : Prop where
  proto : p'.proto = p.proto
  size : p'.size = p.size
  version : alone → p'.version = p.version
  localVersion : (∀ msg ∈ msgs, msg.type ≠ .kSyncRequest) → p'.localVersion = p.localVersion + rounds

/-- **Any run** leaves the slice with one parameter: with the proto of the put, a `local_version` that
counts the rounds and, without other groups, the version of the put. -/
theorem serve_lasted {msgs : List (Msg α)} {rounds : Nat} (held : h.Held slice p)
    (run : msgs.foldlM (serve cluster env slice) (h, 0) = .ok (h', rounds)) :
    ∃ p', h'.Held slice p' ∧ Lasted (h.Alone cluster) msgs rounds p p' := by
  let Inv (done : List (Msg α)) (s : Host α × Nat) : Prop :=
    s.1.server.grpId = h.server.grpId ∧ ∃ p', s.1.Held slice p' ∧ Lasted (h.Alone cluster) done s.2 p p'
  have start : Inv [] (h, 0) := ⟨rfl, p, held, rfl, rfl, fun _ => rfl, fun _ => (add_zero _).symm⟩
  refine (Run.foldlM_inv Inv (fun done msg s s' inv pass => ?_) start run).2
  obtain ⟨grp, p', held, lasted⟩ := inv
  obtain ⟨⟨next, out⟩, received, pass⟩ := Run.do_ok.mp pass
  cases pass
  obtain ⟨p'', held, onward, grp'⟩ := receive_onward held received
  refine ⟨grp'.trans grp, p'', held, onward.proto.trans lasted.proto, onward.size.trans lasted.size, fun alone => ?_,
    fun others => ?_⟩
  · have same : s.1.Alone cluster := fun i lt => (alone i lt).trans grp.symm
    exact (onward.version same).trans (lasted.version alone)
  · rw [onward.localVersion (others msg (by simp)), lasted.localVersion fun m mem => others m (List.mem_append_left _ mem)]
    push_cast
    split_ifs <;> ring

end Runs

end Host
end Singa
