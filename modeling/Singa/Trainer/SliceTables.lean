import Singa.Neuralnet.ShareFrom
import Singa.Neuralnet.ShareParams
import Singa.Trainer.GroupNets
import Singa.Trainer.Requests
import Singa.Trainer.SliceNet

/-!
# The slice tables of the workers' nets

`SetupWorkerServer` slices the first net only. The other groups' nets get their
tables from it with `ShareParamsFrom`, when the cluster shares memory, or not at
all; `GenMsgs` then has no slice to make a message for.
-/

namespace Singa
set_option autoImplicit false

open Memory

/-! ## Requests for a param with a complete table -/

section Requests

variable {α β γ : Type}

/-- Two params with the same slices. -/
structure Param.SameSlices (p : Param α) (q : Param β) : Prop where
  start : p.sliceStart = q.sliceStart
  count : p.numSlices = q.numSlices
  offsets : p.sliceOffset = q.sliceOffset
  sizes : p.sliceSize = q.sliceSize

theorem Param.SameSlices.trans {p : Param α} {q : Param β} {r : Param γ} (h : p.SameSlices q) (h' : q.SameSlices r) : p.SameSlices r :=
  ⟨h.start.trans h'.start, h.count.trans h'.count, h.offsets.trans h'.offsets, h.sizes.trans h'.sizes⟩

theorem Param.SameSlices.tabled {p : Param α} {q : Param β} (h : p.SameSlices q) (tabled : q.Tabled) : p.Tabled :=
  ⟨by rw [h.offsets, h.count, tabled.offsets], by rw [h.sizes, h.count, tabled.sizes]⟩

theorem Param.SameSlices.tiled {p : Param α} {q : Param β} (h : p.SameSlices q) (size : p.size = q.size)
    (tiled : q.Tiled) : p.Tiled := by
  refine ⟨?_, ?_, ?_, ?_⟩
  · rw [h.count, h.sizes, tiled.count]
  · rw [h.offsets, h.sizes, tiled.offsets]
  · rw [h.sizes]
    exact tiled.positive
  · rw [h.sizes, size, tiled.total]

theorem exists_piece {sizes : List Nat} {x : Nat} (inside : x < sizes.sum) :
    ∃ idx < sizes.length, (sizes.take idx).sum ≤ x ∧ x < (sizes.take idx).sum + sizes.getD idx 0 := by
  induction sizes generalizing x with
  | nil => simp at inside
  | cons size sizes ih =>
    rw [List.sum_cons] at inside
    rcases Nat.lt_or_ge x size with first | rest
    · exact ⟨0, Nat.zero_lt_succ _, by simp, by simpa using first⟩
    · obtain ⟨idx, bound, low, high⟩ := ih (x := x - size) (by omega)
      refine ⟨idx + 1, Nat.succ_lt_succ bound, ?_, ?_⟩
      · rw [List.take_succ_cons, List.sum_cons]
        omega
      · rw [List.take_succ_cons, List.sum_cons, List.getD_cons_succ]
        omega

/-- Every value of a param is in a slice. -/
theorem Param.Tiled.slice_at {p : Param α} (h : p.Tiled) {x : Nat} (inside : x < p.size) :
    ∃ idx < p.numSlices, p.offsetOf idx ≤ x ∧ x < p.offsetOf idx + p.sizeOf idx := by
  rw [← h.total] at inside
  obtain ⟨idx, bound, low, high⟩ := exists_piece inside
  rw [← h.count] at bound
  rw [← h.offsetOf_eq bound] at low high
  exact ⟨idx, bound, low, high⟩

/-- The messages are for the slices of a param, one for each and in their order. -/
def Param.SliceMsgs (p : Param α) (msgs : List (Msg α)) : Prop :=
  msgs.map Msg.sliceId = (List.range p.numSlices).map fun idx => ((p.sliceStart + idx : Nat) : Int)

/-- Every value of a param is in the slice of a message. -/
def Param.Covered (p : Param α) (msgs : List (Msg α)) : Prop :=
  ∀ x < p.size, ∃ msg ∈ msgs, ∃ idx < p.numSlices, msg.sliceId = ((p.sliceStart + idx : Nat) : Int) ∧
    p.offsetOf idx ≤ x ∧ x < p.offsetOf idx + p.sizeOf idx

theorem Param.SliceMsgs.covered {p : Param α} {msgs : List (Msg α)} (tiled : p.Tiled) (each : p.SliceMsgs msgs) :
    p.Covered msgs := by
  intro x inside
  obtain ⟨idx, bound, low, high⟩ := tiled.slice_at inside
  have listed : ((p.sliceStart + idx : Nat) : Int) ∈ msgs.map Msg.sliceId := by
    rw [each]
    exact List.mem_map.mpr ⟨idx, List.mem_range.mpr bound, rfl⟩
  obtain ⟨msg, mem, id⟩ := List.mem_map.mp listed
  exact ⟨msg, mem, idx, bound, id, low, high⟩

namespace Trainer

variable {t : Trainer} {type : MsgType} {version : Int} {m : Mem α} {entry entry' : ParamEntry α} {msg : Msg α}
  {p : Param α}

/-- A message of `GenMsgs` leaves the slices as they are. -/
theorem genMsg_slices {copy : Bool} {idx : Nat} {made : Param α × Msg α}
    (run : genMsg type m entry p copy idx = .ok made) : made.1.SameSlices p := by
  cases type with
  | kPut =>
    rw [genMsg] at run
    split at run
    · obtain ⟨msg, -, run⟩ := Run.do_ok.mp run
      cases run
      exact ⟨rfl, rfl, rfl, rfl⟩
    · cases run
  | kGet =>
    obtain ⟨slice, -, run⟩ := Run.do_ok.mp run
    cases run
    exact ⟨rfl, rfl, rfl, rfl⟩
  | kUpdate =>
    obtain ⟨sent, request, run⟩ := Run.do_ok.mp run
    obtain ⟨slice, -, request⟩ := Run.do_ok.mp request
    cases request
    cases run
    exact ⟨rfl, rfl, rfl, rfl⟩
  | _ => cases run

/-- There is a message for every slice of the table, if a frame can hold the values of one. -/
theorem genMsg_returns (known : type ∈ [.kPut, .kGet, .kUpdate]) (total : 0 < entry.numTotal) (tabled : p.Tabled)
    (copy : Bool) {idx : Nat} (lt : idx < p.numSlices) (few : type ≠ .kGet → ∀ size ∈ p.sliceSize, size < 2 ^ 29) :
    ∃ made, genMsg type m entry p copy idx = .ok made := by
  have slice := tabled.checkedSliceAt lt
  simp only [List.mem_cons, List.not_mem_nil, or_false] at known
  rcases known with rfl | rfl | rfl
  · have put : ∃ msg, p.genPutMsg m copy idx = .ok msg := by
      rw [Param.genPutMsg, slice]
      cases copy with
      | false => exact ⟨_, rfl⟩
      | true =>
        have inside : idx < p.sliceSize.length := tabled.sizes.symm ▸ lt
        have small : p.sizeOf idx < 2 ^ 29 := by
          rw [Param.sizeOf, List.getD_eq_getElem _ _ inside]
          exact few (by decide) _ (List.getElem_mem inside)
        exact ⟨_, Msg.addFloats_small _ (by rwa [Mem.read_length])⟩
    obtain ⟨msg, put⟩ := put
    rw [genMsg, if_pos total]
    exact ⟨_, Run.do_ok.mpr ⟨msg, put, rfl⟩⟩
  · exact ⟨_, Run.do_ok.mpr ⟨_, slice, rfl⟩⟩
  · exact ⟨_, Run.do_ok.mpr ⟨_, Run.do_ok.mpr ⟨_, slice, rfl⟩, rfl⟩⟩

/-- One pass of the loop of `GenMsgs` adds the message for its slice. -/
theorem genMsgsAt_ok {srcGrp dstGrp : Int} {idx : Nat} {ret : List (Msg α)} {next : Param α × List (Msg α)}
    (run : t.genMsgsAt type version m entry srcGrp dstGrp (p, ret) idx = .ok next) : next.1.SameSlices p ∧
      next.2.map Msg.sliceId = ret.map Msg.sliceId ++ [((p.sliceStart + idx : Nat) : Int)] := by
  rw [genMsgsAt] at run
  dsimp only at run
  split at run
  · cases run
  · obtain ⟨made, one, run⟩ := Run.do_ok.mp run
    cases run
    refine ⟨genMsg_slices one, ?_⟩
    rw [List.map_append]
    rfl

/-- What `GenMsgs` returns: a message for each slice of the first share. -/
theorem genMsgs_slices {msgs : List (Msg α)} (front : entry.front = .ok p)
    (run : t.genMsgs type version m entry msg = .ok (entry', msgs)) : p.SliceMsgs msgs := by
  rw [genMsgs] at run
  dsimp only at run
  split at run
  · cases run
  · obtain ⟨first, here, run⟩ := Run.do_ok.mp run
    obtain ⟨⟨last, ret⟩, loop, run⟩ := Run.do_ok.mp run
    cases run
    obtain rfl := Except.ok.inj (front.symm.trans here)
    have inv := Run.foldlM_inv (fun done (s : Param α × List (Msg α)) => s.1.SameSlices p ∧
        s.2.map Msg.sliceId = done.map fun idx => ((p.sliceStart + idx : Nat) : Int))
      (fun done idx s s' inv pass => by
        obtain ⟨same, ids⟩ := genMsgsAt_ok pass
        refine ⟨same.trans inv.1, ?_⟩
        rw [ids, inv.2, inv.1.start, List.map_append]
        rfl)
      ⟨⟨rfl, rfl, rfl, rfl⟩, rfl⟩ loop
    exact inv.2

/-- `GenMsgs` returns, for a param with slices that the servers have and that fit a frame. -/
theorem genMsgs_returns (known : type ∈ [.kPut, .kGet, .kUpdate]) (total : 0 < entry.numTotal)
    (per : t.cluster.proto.nworkerGroupsPerServerGroup ≠ 0) (front : entry.front = .ok p) (tabled : p.Tabled)
    (serves : t.Serves p) (few : type ≠ .kGet → ∀ size ∈ p.sliceSize, size < 2 ^ 29) :
    ∃ sent, t.genMsgs type version m entry msg = .ok sent := by
  obtain ⟨⟨last, ret⟩, loop, -⟩ := Run.foldlM_prefix (l := List.range p.numSlices)
    (f := t.genMsgsAt type version m entry msg.src.grp (t.dstGrp msg.src.grp))
    (fun _ s => s.1.SameSlices p) (fun done idx rest s split same => by
      have lt : idx < p.numSlices := List.mem_range.mp (split ▸ List.mem_append_right done List.mem_cons_self)
      obtain ⟨now, ret⟩ := s
      have bound := serves
      rw [Serves] at bound
      have low : now.sliceStart + idx < t.slice2server.length := by
        rw [same.start]
        omega
      obtain ⟨made, one⟩ := genMsg_returns (m := m) known total (same.tabled tabled)
        (t.cluster.procsIdOf (t.dstGrp msg.src.grp) t.slice2server[now.sliceStart + idx] ≠ t.procsId)
        (same.count ▸ lt) (same.sizes.symm ▸ few)
      rw [genMsgsAt]
      dsimp only
      rw [List.getElem?_eq_getElem low]
      exact ⟨_, Run.do_ok.mpr ⟨made, one, rfl⟩, (genMsg_slices one).trans same⟩)
    (s := (p, [])) ⟨rfl, rfl, rfl, rfl⟩
  refine ⟨(entry.setFront last, ret), ?_⟩
  rw [genMsgs, if_neg per]
  exact Run.do_ok.mpr ⟨p, front, Run.do_ok.mpr ⟨_, loop, rfl⟩⟩

end Trainer

end Requests

/-- A complete slice table, of slices that have a length in `slices`. -/
structure NetParam.Complete (slices : List Nat) (p : NetParam) : Prop where
  first : 1 ≤ p.view.numSlices
  tiled : p.view.Tiled
  listed : p.view.sliceStart + p.view.numSlices ≤ slices.length

/-- `GenMsgs` returns for every entry of the param, if its slices fit a frame where values are sent, and the messages
cover the param. -/
structure NetParam.Requested (slices : List Nat) (p : NetParam) : Prop where
  returns : ∀ (α : Type) (q : Param α) (t : Trainer) (type : MsgType) (version : Int) (m : Mem α)
    (entry : ParamEntry α) (msg : Msg α), q.SameSlices p.view → entry.front = .ok q → 0 < entry.numTotal →
    type ∈ [.kPut, .kGet, .kUpdate] → t.cluster.proto.nworkerGroupsPerServerGroup ≠ 0 →
    t.slice2server.length = slices.length → (type ≠ .kGet → ∀ size ∈ q.sliceSize, size < 2 ^ 29) →
    ∃ sent, t.genMsgs type version m entry msg = .ok sent
  covers : ∀ (α : Type) (q : Param α) (t : Trainer) (type : MsgType) (version : Int) (m : Mem α)
    (entry entry' : ParamEntry α) (msg : Msg α) (msgs : List (Msg α)), q.SameSlices p.view → q.size = p.view.size →
    entry.front = .ok q → t.genMsgs type version m entry msg = .ok (entry', msgs) → msgs ≠ [] ∧ q.Covered msgs

/-- Every param in the train net of a worker has a complete slice table. -/
def TrainSliced (slices : List Nat) (s : SetupState) : Prop :=
  ∀ w ∈ s.workers, ∃ number net, groupNet s.nets w = some (number, net) ∧
    ∀ id ∈ net.ids, (net.params id).Complete slices ∧ (net.params id).Requested slices

/-- The owner of every param is a param of the net and owns itself. -/
def OwnersOwn (net : Net) : Prop :=
  ∀ id ∈ net.ids, (net.params id).owner ∈ net.ids ∧
    (net.params (net.params id).owner).owner = (net.params id).owner

namespace NetParam

variable {slices : List Nat} {p q : NetParam}

theorem Complete.requested (h : p.Complete slices) : p.Requested slices := by
  constructor
  · intro α q t type version m entry msg same front total known per length few
    refine Trainer.genMsgs_returns known total per front (same.tabled h.tiled.tabled) ?_ few
    rw [Trainer.Serves, same.start, same.count, length]
    exact h.listed
  · intro α q t type version m entry entry' msg msgs same size front run
    have each := Trainer.genMsgs_slices front run
    refine ⟨?_, each.covered (same.tiled size h.tiled)⟩
    rintro rfl
    have count := congrArg List.length each
    rw [List.length_map, List.length_map, List.length_range, same.count] at count
    have first := h.first
    rw [← count] at first
    exact absurd first (Nat.not_succ_le_zero 0)

/-- A param that shares from a param with a complete table has one. -/
theorem Complete.shared (h : q.Complete slices) (tables : p.slices = q.slices) (shape : p.shape = q.shape) :
    p.Complete slices := by
  have same : p.view.SameSlices q.view := by
    refine ⟨?_, ?_, ?_, ?_⟩
    all_goals simp only [view, tables]
  refine ⟨?_, same.tiled ?_ h.tiled, ?_⟩
  · rw [same.count]
    exact h.first
  · rw [Param.size, Param.size, view, view, shape]
  · rw [same.start, same.count]
    exact h.listed

/-- A new param has none. -/
theorem not_complete (new : p.slices = {}) : ¬ p.Complete slices := by
  intro h
  have first := h.first
  rw [(view_unsliced new).count] at first
  omega

end NetParam

/-! ## The tables of the first net -/

namespace NeuralNet

variable {net net' other : Net} {pieces : List (List Nat)} {table : Int → List (Nat × Nat)}

/-- The params that own themselves get a complete table, and so do those that share from them. -/
theorem NewNet.withTable_complete_iff (h : NewNet net)
    (here : Paramid2Slices (net.ids.map fun id => (net.params id).view) pieces table) {id : Nat} (mem : id ∈ net.ids) :
    ((net.withTable table).params id).Complete pieces.flatten ↔ (net.params id).owner ∈ net.ids ∧
      (net.params (net.params id).owner).owner = (net.params id).owner := by
  have param : (net.withTable table).params id = (net.params id).sliced ((net.params id).view.withTable table) :=
    if_pos mem
  have view := (net.params id).view_sliced table
  rw [← param] at view
  constructor
  · intro complete
    by_contra other
    -- no owner has the id, so that `AddSlice` is not called
    have absent : table (net.params id).view.owner = [] := by
      refine here.rest _ fun owned => other ?_
      obtain ⟨q, hq, same⟩ := List.mem_map.mp owned
      obtain ⟨listed, own⟩ := List.mem_filter.mp hq
      obtain ⟨o, ho, rfl⟩ := List.mem_map.mp listed
      have own : (net.params o).view.id = (net.params o).view.owner := by simpa using own
      have own : ((net.params o).id : Int) = (net.params o).owner := own
      have same : ((net.params o).id : Int) = (net.params id).owner := same
      rw [h.id o ho] at own same
      have owner : o = (net.params id).owner := by exact_mod_cast same
      rw [← owner]
      exact ⟨ho, by exact_mod_cast own.symm⟩
    have first := complete.first
    rw [view, Param.withTable, if_pos absent, (NetParam.view_unsliced (h.slices id)).count] at first
    omega
  · rintro ⟨listed, own⟩
    let o := (net.params id).owner
    have owner : (net.params o).view ∈ owners (net.ids.map fun id => (net.params id).view) := by
      refine List.mem_filter.mpr ⟨List.mem_map_of_mem listed, ?_⟩
      have same : ((net.params o).id : Int) = (net.params o).owner := by rw [h.id o listed, own]
      exact decide_eq_true same
    have same : (net.params o).view.id = (net.params id).view.owner := by
      change ((net.params o).id : Int) = (net.params id).owner
      rw [h.id o listed]
    obtain ⟨k, lens, tabled, -, -, some_piece, piece, get⟩ := here.share owner same (h.positive o)
    have size : (net.params o).view.size = (net.params id).view.size := by
      change (net.params o).shape.prod = (net.params id).shape.prod
      rw [h.shape o listed id mem own]
    rw [tabled] at view
    have pos : 0 < lens.length := List.length_pos_iff.mpr some_piece
    refine ⟨?_, ?_, ?_⟩
    · rw [view]
      exact pos
    · rw [view]
      exact ⟨rfl, rfl, piece.2, piece.1.trans size⟩
    · rw [view]
      change k + lens.length ≤ pieces.flatten.length
      have last := get (lens.length - 1) (by omega)
      rw [List.getElem?_eq_getElem (by omega : lens.length - 1 < lens.length)] at last
      have bound := (List.getElem?_eq_some_iff.mp last).1
      omega

/-! ## Nets that share -/

/-- Every param of a net with the layers of another one has the slices of a param of that net after
`ShareParamsFrom`. -/
theorem shareParamsFrom_slices (run : shareParamsFrom net other = .ok net') (layers : net.layers = other.layers) :
    ∀ id ∈ net'.ids, ∃ q ∈ other.ids,
      (net'.params id).slices = (other.params q).slices ∧ (net'.params id).shape = (other.params q).shape := by
  obtain ⟨params', loop, last⟩ := Run.do_ok.mp run
  cases last
  let Shared (p : NetParam) : Prop := ∃ q ∈ other.ids, p.slices = (other.params q).slices ∧ p.shape = (other.params q).shape
  have inv := Run.foldlM_inv_split (fun done params => ∀ id ∈ done.flatMap NetLayer.params, Shared (params id))
    (fun done layer rest params next split inv pass => ?_) (by simp) loop
  · exact inv
  have mem : layer ∈ other.layers := by
    rw [← layers, split]
    exact List.mem_append_right done List.mem_cons_self
  obtain ⟨otherlayer, listed, -, found⟩ := name2layer_found ⟨layer, mem, rfl⟩
  rw [found] at pass
  change shareLayerFrom other layer.params otherlayer.params params = .ok next at pass
  rw [shareLayerFrom] at pass
  split at pass
  · rename_i count
    have copies := Run.foldlM_inv_split (l := layer.params.zip otherlayer.params)
      (fun copied params => ∀ id, id ∈ done.flatMap NetLayer.params ∨ id ∈ copied.map Prod.fst → Shared (params id))
      (fun copied e rest params next split inv pass => ?_) (fun id known => ?_) pass
    · intro id known
      rw [List.flatMap_append, List.mem_append] at known
      refine copies id (known.imp_right fun here => ?_)
      rw [List.map_fst_zip count.le]
      simpa using here
    · obtain ⟨p, shared, pass⟩ := Run.do_ok.mp pass
      cases pass
      rw [share_ok shared]
      intro id known
      by_cases here : id = e.1
      · rw [here, Function.update_self]
        have source : e.2 ∈ otherlayer.params :=
          (List.of_mem_zip (split ▸ List.mem_append_right copied List.mem_cons_self)).2
        exact ⟨e.2, List.mem_flatMap.mpr ⟨otherlayer, listed, source⟩, rfl, rfl⟩
      · rw [Function.update_of_ne here]
        refine inv id (known.imp_right fun mem => ?_)
        rw [List.map_append, List.mem_append] at mem
        rcases mem with mem | mem
        · exact mem
        · exact absurd (by simpa using mem) here
    · rcases known with known | none
      · exact inv id known
      · cases none
  · cases pass

end NeuralNet

/-! ## The workers' nets -/

/-- The numbers of later nets, which only other groups than `prev` have. -/
theorem assignNets_numbers {prev : Int} {next : Nat} {l : List Nat} {e : Nat × Nat} (mem : e ∈ assignNets prev next l) :
    e.2 = 0 ∨ (next ≤ e.2 ∧ ∃ g ∈ l, (g : Int) ≠ prev) := by
  induction l generalizing prev next with
  | nil => cases mem
  | cons grp rest ih =>
    rw [assignNets] at mem
    split at mem
    · rename_i other
      rcases List.mem_cons.mp mem with rfl | mem
      · exact .inr ⟨le_rfl, grp, List.mem_cons_self, other⟩
      · refine (ih mem).imp_right fun later => ⟨?_, grp, List.mem_cons_self, other⟩
        exact (Nat.le_succ next).trans later.1
    · rcases List.mem_cons.mp mem with rfl | mem
      · exact .inl rfl
      · refine (ih mem).imp_right fun old => ?_
        obtain ⟨later, g, hg, other⟩ := old
        exact ⟨later, g, List.mem_cons_of_mem grp hg, other⟩

theorem assignNets_later {prev : Int} {l : List Nat} (next : Nat) (other : ∃ g ∈ l, (g : Int) ≠ prev) :
    ∃ e ∈ assignNets prev next l, next ≤ e.2 := by
  induction l with
  | nil => simp at other
  | cons grp rest ih =>
    rw [assignNets]
    split
    · exact ⟨(grp, next), List.mem_cons_self, le_rfl⟩
    · rename_i same
      obtain ⟨g, hg, other⟩ := other
      rcases List.mem_cons.mp hg with rfl | hg
      · exact absurd other same
      · obtain ⟨e, he, later⟩ := ih ⟨g, hg, other⟩
        exact ⟨e, List.mem_cons_of_mem _ he, later⟩

/-- All workers are of one group. -/
def OneGroup (threads : List Thread) : Prop := ∀ v ∈ threads, ∀ v' ∈ threads, v.grpId = v'.grpId

namespace ClusterConf

variable {c : ClusterConf} {src : NetSource} {model : ModelConf} {s : SetupState} {threads : List Thread}
  {slices : List Nat} {net sliced : Net}

/-- What the train nets of the workers are, when the first net is `sliced`. -/
structure TrainNets (c : ClusterConf) (src : NetSource) (model : ModelConf) (threads : List Thread) (sliced : Net)
    (s : SetupState) : Prop where
  workers : s.workers.map WorkerNets.worker = threads
  net : ∀ w ∈ s.workers, ∃ number net, groupNet s.nets w = some (number, net) ∧
    (net = sliced ∨ (¬ OneGroup threads ∧ ∃ n, c.laterNet src model n sliced = .ok net))
  first : threads ≠ [] → ∃ w ∈ s.workers, ∃ number, groupNet s.nets w = some (number, sliced)
  later : ¬ OneGroup threads → ∃ w ∈ s.workers, ∃ number net, groupNet s.nets w = some (number, net) ∧
    ∃ n, c.laterNet src model n sliced = .ok net

theorem setupWorkers_trainNets (run : c.setupWorkers src model threads = .ok (s, slices)) :
    ∃ net sliced, src.create [] model.neuralnet .kTrain c.nworkersPerGroup = .ok net ∧
      sliceNet src.fuel c.toClusterProto net = .ok (sliced, slices) ∧ TrainNets c src model threads sliced s := by
  obtain ⟨net, sliced, mid, start, made, cut, test, valid, loop⟩ := setupWorkers_ok run
  refine ⟨net, sliced, made, cut, ?_⟩
  obtain ⟨some_net, grp, none, -⟩ := testNets_ok (by simp) rfl rfl rfl test valid
  obtain ⟨kept, -⟩ := testNets_kept test valid
  have head : start.nets.head? = some sliced := by
    rw [List.head?_eq_getElem?]
    exact List.prefix_iff_getElem?.mp kept 0 (by simp)
  obtain ⟨later, -⟩ := setup_nets head loop
  obtain ⟨added, workers, map, found, -⟩ := setup_numbers (List.ne_nil_of_length_pos some_net)
    (fun _ w hw => by rw [grp, Option.mem_def.mp hw]; rfl) loop
  have assigned := setup_assign loop
  rw [none, List.nil_append] at workers
  rw [none, List.map_nil, List.nil_append] at assigned
  rw [← workers] at found map
  -- the net of a worker that has the number `n`
  have at_number {w : WorkerNets} (hw : w ∈ s.workers) {n : Nat} (train : w.trainNet = some n) :
      ∃ net, groupNet s.nets w = some (n, net) ∧ s.nets[n]? = some net := by
    obtain ⟨number, net, here⟩ := found w hw
    obtain ⟨number', train', here'⟩ := Option.bind_eq_some_iff.mp here
    obtain ⟨net', at_number, same⟩ := Option.map_eq_some_iff.mp here'
    obtain ⟨rfl, rfl⟩ := Prod.mk.inj same
    obtain rfl := Option.some.inj (train.symm.trans train')
    exact ⟨net', here, at_number⟩
  have with_number {e : Nat × Nat} (he : e ∈ assignNets start.grp start.nets.length (threads.map Thread.grpId)) :
      ∃ w ∈ s.workers, w.trainNet = some e.2 := by
    have mem := List.mem_map_of_mem (f := fun e : Nat × Nat => (e.1, some e.2)) he
    rw [← assigned] at mem
    obtain ⟨w, hw, same⟩ := List.mem_map.mp mem
    exact ⟨w, hw, (Prod.mk.inj same).2⟩
  have zero {net : Net} (here : s.nets[0]? = some net) : net = sliced := by
    rw [← List.head?_eq_getElem?, later.head] at here
    exact (Option.some.inj here).symm
  have others : (∃ g ∈ threads.map Thread.grpId, (g : Int) ≠ start.grp) ↔ ¬ OneGroup threads := by
    cases threads with
    | nil => simp [OneGroup]
    | cons v threads =>
      have group : start.grp = (v.grpId : Int) := grp
      rw [group]
      constructor
      · rintro ⟨g, hg, other⟩ one
        obtain ⟨v', hv', rfl⟩ := List.mem_map.mp hg
        exact other (by exact_mod_cast one v' hv' v List.mem_cons_self)
      · intro several
        by_contra all
        push Not at all
        have same (v' : Thread) (hv' : v' ∈ v :: threads) : v'.grpId = v.grpId := by
          exact_mod_cast all v'.grpId (List.mem_map_of_mem hv')
        exact several fun a ha b hb => (same a ha).trans (same b hb).symm
  refine ⟨map, fun w hw => ?_, fun some_worker => ?_, fun several => ?_⟩
  · have mem := List.mem_map_of_mem (f := fun w : WorkerNets => (w.worker.grpId, w.trainNet)) hw
    rw [assigned] at mem
    obtain ⟨e, he, same⟩ := List.mem_map.mp mem
    obtain ⟨net, here, at_e⟩ := at_number hw (Prod.mk.inj same).2.symm
    refine ⟨e.2, net, here, ?_⟩
    rcases assignNets_numbers he with number | ⟨high, other⟩
    · rw [number] at at_e
      exact .inl (zero at_e)
    · exact .inr ⟨others.mp other, e.2, later.later e.2 net high at_e⟩
  · cases threads with
    | nil => exact absurd rfl some_worker
    | cons v threads =>
      have group : start.grp = (v.grpId : Int) := grp
      obtain ⟨w, hw, train⟩ := with_number (e := (v.grpId, 0)) (by
        rw [group, List.map_cons, assignNets, if_neg (not_not.mpr rfl)]
        exact List.mem_cons_self)
      obtain ⟨net, here, first⟩ := at_number hw train
      exact ⟨w, hw, 0, zero first ▸ here⟩
  · obtain ⟨e, he, high⟩ := assignNets_later start.nets.length (others.mpr several)
    obtain ⟨w, hw, train⟩ := with_number he
    obtain ⟨net, here, at_e⟩ := at_number hw train
    exact ⟨w, hw, e.2, net, here, e.2, later.later e.2 net high at_e⟩

/-- A net of another group has complete tables exactly when it shares them. -/
theorem laterNet_complete_iff {n : Nat} {later : Net} (pos : ∀ number u k, 0 < (src.shape number u k).prod)
    (made : src.create [] model.neuralnet .kTrain c.nworkersPerGroup = .ok net) (layers : sliced.layers = net.layers)
    (complete : ∀ id ∈ sliced.ids, (sliced.params id).Complete slices)
    (run : c.laterNet src model n sliced = .ok later) :
    (∀ id ∈ later.ids, (later.params id).Complete slices) ↔ c.shareMemory = true ∨ net.ids = [] := by
  obtain ⟨fresh, create, share⟩ := Run.do_ok.mp run
  have same : fresh.layers = net.layers := NeuralNet.create_layers made create
  rw [shareWhen] at share
  split at share
  · rename_i shares
    refine iff_of_true (fun id mem => ?_) (.inl shares)
    obtain ⟨q, hq, tables, shape⟩ := NeuralNet.shareParamsFrom_slices share (same.trans layers.symm) id mem
    exact (complete q hq).shared tables shape
  · rename_i own
    cases share
    have new : NeuralNet.NewNet later := NeuralNet.create_new (pos n) create
    have ids : later.ids = net.ids := congrArg (List.flatMap NetLayer.params) same
    rw [ids]
    constructor
    · intro all
      refine .inr (List.eq_nil_iff_forall_not_mem.mpr fun id mem => ?_)
      exact NetParam.not_complete (new.slices id) (all id mem)
    · rintro (shares | none)
      · exact absurd shares own
      · rw [none]
        exact fun id mem => absurd mem List.not_mem_nil

/-- **Every param that a worker can update has a complete slice table**, exactly when the owners of the first
net's params own themselves, and the nets of other groups, if there are any with params, share memory with it. -/
theorem trainSliced_iff (c : ClusterConf) (groups : 1 ≤ c.nserverGroups)
    (pos : ∀ number u k, 0 < (src.shape number u k).prod)
    (made : src.create [] model.neuralnet .kTrain c.nworkersPerGroup = .ok net)
    (run : c.setupWorkers src model threads = .ok (s, slices)) : TrainSliced slices s ↔
      (threads ≠ [] → OwnersOwn net ∧ (c.shareMemory = true ∨ OneGroup threads ∨ net.ids = [])) := by
  obtain ⟨net', sliced, made', cut, nets⟩ := setupWorkers_trainNets run
  obtain rfl := Except.ok.inj (made.symm.trans made')
  have new : NeuralNet.NewNet net := NeuralNet.create_new (pos 0) made
  obtain ⟨pieces, table, here, rfl, rfl⟩ := new.sliceNet_ok groups c.serversPerGroup_pos cut
  have layers : (net.withTable table).layers = net.layers := rfl
  have first : (∀ id ∈ net.ids, ((net.withTable table).params id).Complete pieces.flatten) ↔ OwnersOwn net :=
    forall₂_congr fun id mem => new.withTable_complete_iff here mem
  constructor
  · intro all some_worker
    have known (w : WorkerNets) (hw : w ∈ s.workers) (number : Nat) (net' : Net)
        (own : groupNet s.nets w = some (number, net')) : ∀ id ∈ net'.ids, (net'.params id).Complete pieces.flatten := by
      obtain ⟨number', found, own', complete⟩ := all w hw
      obtain ⟨-, rfl⟩ := Prod.mk.inj (Option.some.inj (own.symm.trans own'))
      exact fun id mem => (complete id mem).1
    obtain ⟨w, hw, number, own⟩ := nets.first some_worker
    have complete := known w hw number _ own
    refine ⟨first.mp complete, ?_⟩
    by_cases one : OneGroup threads
    · exact .inr (.inl one)
    · obtain ⟨w, hw, number, later, own, n, run⟩ := nets.later one
      rcases (laterNet_complete_iff pos made layers complete run).mp (known w hw number later own) with shares | none
      · exact .inl shares
      · exact .inr (.inr none)
  · intro cond w hw
    obtain ⟨number, net', own, which⟩ := nets.net w hw
    have some_worker : threads ≠ [] := by
      rw [← nets.workers]
      exact List.ne_nil_of_mem (List.mem_map_of_mem hw)
    obtain ⟨owners, share⟩ := cond some_worker
    have complete := first.mpr owners
    refine ⟨number, net', own, ?_⟩
    have all : ∀ id ∈ net'.ids, (net'.params id).Complete pieces.flatten := by
      rcases which with rfl | ⟨several, n, run⟩
      · exact complete
      · refine (laterNet_complete_iff pos made layers complete run).mpr ?_
        exact share.imp_right fun one => one.resolve_left several
    exact fun id mem => ⟨all id mem, (all id mem).requested⟩

/-- Two groups that share memory. -/
theorem twoGroups_trainSliced : ∃ threads s slices, twoGroups.createWorkers 0 0 = .ok threads ∧
    twoGroups.setupWorkers smallSource smallModel threads = .ok (s, slices) ∧ TrainSliced slices s := by
  let threads : List Thread := [⟨0, 0, 0⟩, ⟨1, 0, 1⟩, ⟨2, 1, 0⟩, ⟨3, 1, 1⟩]
  have created : twoGroups.createWorkers 0 0 = .ok threads := by decide
  obtain ⟨⟨s, slices⟩, run⟩ : ∃ r, twoGroups.setupWorkers smallSource smallModel threads = .ok r :=
    Run.exists_of_isOk (by decide +kernel)
  have all : (do
      let net ← smallSource.create [] smallModel.neuralnet .kTrain twoGroups.nworkersPerGroup
      .ok (net.ids, net.ids.map fun id => (net.params id).owner)) = .ok ([0, 1, 2, 3], [0, 1, 0, 1]) := by
    decide +kernel
  obtain ⟨net, made, all⟩ := Run.do_ok.mp all
  obtain ⟨ids, owner⟩ := Prod.mk.inj (Except.ok.inj all)
  rw [ids] at owner
  simp only [List.map_cons, List.map_nil, List.cons.injEq, and_true] at owner
  have pos (number u k : Nat) : 0 < (smallSource.shape number u k).prod := Nat.succ_pos 3
  refine ⟨threads, s, slices, created, run, (trainSliced_iff twoGroups (by decide) pos made run).mpr fun _ => ?_⟩
  refine ⟨?_, .inl rfl⟩
  rw [OwnersOwn, ids]
  simp [owner]

/-- The same groups, each with a net of its own. -/
def twoGroupsApart : ClusterConf := { twoGroups with shareMemory := false }

/-- The net of the second group has no slices. -/
theorem twoGroupsApart_not_trainSliced : ∃ threads s slices, 1 ≤ twoGroupsApart.nserverGroups ∧
    twoGroupsApart.createWorkers 0 0 = .ok threads ∧
    twoGroupsApart.setupWorkers smallSource smallModel threads = .ok (s, slices) ∧ ¬ TrainSliced slices s := by
  have all : (do
      let threads ← twoGroupsApart.createWorkers 0 0
      let (s, _) ← twoGroupsApart.setupWorkers smallSource smallModel threads
      .ok (s.workers.map fun w => (groupNet s.nets w).map fun e : Nat × Net =>
        (decide (0 ∈ e.2.ids), (e.2.params 0).view.numSlices))) =
      .ok [some (true, 1), some (true, 1), some (true, 0), some (true, 1)] := by
    decide +kernel
  obtain ⟨threads, created, all⟩ := Run.do_ok.mp all
  obtain ⟨⟨s, slices⟩, run, all⟩ := Run.do_ok.mp all
  refine ⟨threads, s, slices, by decide, created, run, fun sliced => ?_⟩
  have bare : some (true, 0) ∈ s.workers.map fun w => (groupNet s.nets w).map fun e : Nat × Net =>
      (decide (0 ∈ e.2.ids), (e.2.params 0).view.numSlices) := by
    rw [Except.ok.inj all]
    decide
  obtain ⟨w, hw, same⟩ := List.mem_map.mp bare
  obtain ⟨number, net, own, complete⟩ := sliced w hw
  rw [own, Option.map_some, Option.some.injEq, Prod.mk.injEq] at same
  have first := (complete 0 (by simpa using same.1)).1.first
  rw [same.2] at first
  exact absurd first (by decide)

end ClusterConf

end Singa
