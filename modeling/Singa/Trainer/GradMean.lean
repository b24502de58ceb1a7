import Singa.Trainer.Updates

/-!
# The gradient that reaches the updater

The stub of a process with several shares adds up their gradients and divides by
`num_total`; the server adds up the requests and divides by their number. The
two divisions compose to a mean only when one of them is idle: with a single
process the server does not divide, with single shares the stubs do not.
-/

namespace Singa
set_option autoImplicit false

open Memory Vec

variable {α : Type}

/-! ## The server's part -/

/-- An update request that carries a copy of the gradient `values`. -/
structure Copied (size : Nat) (msg : Msg α) (values : List α) : Prop where
  cursor : msg.cursor = 0
  length : values.length = size
  frames : ∃ numLocal, msg.frames = [.format [.int (flag true)], .data values, .format [.int numLocal]]

theorem Copied.parseI {size : Nat} {msg : Msg α} {values : List α} (h : Copied size msg values) :
    msg.parseI = .ok (flag true) := by
  obtain ⟨numLocal, frames⟩ := h.frames
  simp [Msg.parseI, Msg.args, Msg.frame, frames, h.cursor]
  rfl

theorem mapM_parseI_copied {size : Nat} {msgs : List (Msg α)} {vss : List (List α)}
    (copied : List.Forall₂ (Copied size) msgs vss) :
    msgs.mapM Msg.parseI = .ok (List.replicate msgs.length (flag true)) := by
  induction copied with
  | nil => rfl
  | cons first _ ih =>
    rw [List.mapM_cons]
    exact Run.do_ok.mpr ⟨_, first.parseI, Run.do_ok.mpr ⟨_, ih, rfl⟩⟩

section Server

variable [Field α]

/-- The memory after `n` cells at `grad` were overwritten by the vector `sum`. -/
structure Accumulated (m m' : Mem α) (grad : Ptr) (n : Nat) (sum : Nat → α) : Prop where
  sum : coord (m'.read grad n) = sum
  frame : ∀ q k, Apart q k grad n → m'.read q k = m.read q k

variable {p : Param α}

theorem mergeGrad_accumulated (m : Mem α) (reset : Bool) {values : List α} (length : values.length = p.size) :
    Accumulated m (Param.mergeGrad m p reset values) p.grad.ptr p.size
      (if reset then coord values else coord (m.read p.grad.ptr p.size) + coord values) := by
  have written : ∀ vs : List α, vs.length = p.size →
      Accumulated m (m.write p.grad.ptr vs) p.grad.ptr p.size (coord vs) := by
    intro vs hvs
    refine ⟨?_, fun q k apart => m.read_write_apart (hvs.symm ▸ apart)⟩
    rw [← hvs, Mem.read_write_self]
  cases reset
  · have both := written (List.zipWith (· + ·) (m.read p.grad.ptr p.size) values) (by simp [length])
    rw [coord_zipWith_add (by simp [length])] at both
    exact both
  · exact written values length

/-- The second loop of `ParseUpdateMsgs` adds up copied gradients. -/
theorem parseLoop_copied (env : Env α) {msgs : List (Msg α)} {vss : List (List α)}
    (copied : List.Forall₂ (Copied p.size) msgs vss) (m : Mem α) :
    ∃ m', ((List.replicate msgs.length (flag true)).zip msgs).foldlM (Param.parseUpdateMsg env) (m, p, false) =
        .ok (m', p, false) ∧
      Accumulated m m' p.grad.ptr p.size (coord (m.read p.grad.ptr p.size) + (vss.map coord).sum) := by
  induction copied generalizing m with
  | nil => exact ⟨m, rfl, by simp, fun _ _ _ => rfl⟩
  | @cons msg values msgs vss first _ ih =>
    obtain ⟨numLocal, frames⟩ := first.frames
    have pass := Param.parseUpdateMsg_copied env (m := m) first.cursor frames first.length false
    have merged := mergeGrad_accumulated (p := p) m false first.length
    obtain ⟨m', rest, total⟩ := ih (Param.mergeGrad m p false values)
    refine ⟨m', ?_, ?_, fun q k apart => (total.frame q k apart).trans (merged.frame q k apart)⟩
    · rw [List.length_cons, List.replicate_succ, List.zip_cons_cons, List.foldlM_cons]
      exact Run.do_ok.mpr ⟨_, pass, rest⟩
    · have sum := merged.sum
      simp only [Bool.false_eq_true, if_false] at sum
      rw [total.sum, sum, List.map_cons, List.sum_cons, add_assoc]

/-- The division by the number of requests, after both loops. -/
theorem parseUpdateMsgs_div (env : Env α) {msgs : List (Msg α)} {m m' : Mem α} {p' : Param α} {copies : List Int} {reset : Bool}
    (flags : msgs.mapM Msg.parseI = .ok copies) (some : msgs ≠ [])
    (loop : (copies.zip msgs).foldlM (Param.parseUpdateMsg env) (m, p, copies.all (· ≠ 0)) = .ok (m', p', reset)) :
    ∃ m'', p.parseUpdateMsgs env m msgs = .ok (m'', p') ∧
      (coord (m''.read p'.grad.ptr p'.size) = fun i => coord (m'.read p'.grad.ptr p'.size) i / (msgs.length : α)) ∧
      ∀ q k, Apart q k p'.grad.ptr p'.size → m''.read q k = m'.read q k := by
  by_cases many : 1 < msgs.length
  · refine ⟨m'.write p'.grad.ptr ((m'.read p'.grad.ptr p'.size).map (· / (msgs.length : α))), ?_, ?_, ?_⟩
    · exact Run.do_ok.mpr ⟨_, flags, Run.do_ok.mpr ⟨_, loop, if_pos many⟩⟩
    · rw [Mem.read_write_of_length _ (by simp), coord_map_div]
    · intro q k apart
      exact m'.read_write_apart (by simpa using apart)
  · have one : msgs.length = 1 := by
      have := List.length_pos_iff.mpr some
      omega
    refine ⟨m', Run.do_ok.mpr ⟨_, flags, Run.do_ok.mpr ⟨_, loop, if_neg many⟩⟩, ?_, fun _ _ _ => rfl⟩
    rw [one]
    simp

/-- **`ParseUpdateMsgs` on copied gradients**: their sum, divided by their number when that is above 1. -/
theorem parseUpdateMsgs_copied (env : Env α) {msgs : List (Msg α)} {vss : List (List α)}
    (copied : List.Forall₂ (Copied p.size) msgs vss) (some : msgs ≠ []) (m : Mem α) :
    ∃ m', p.parseUpdateMsgs env m msgs = .ok (m', p) ∧
      Accumulated m m' p.grad.ptr p.size
        (fun i => (vss.map coord).sum i / if 1 < msgs.length then (msgs.length : α) else 1) := by
  have flags := mapM_parseI_copied copied
  have reset : (List.replicate msgs.length (flag true)).all (· ≠ 0) = true := by
    simp [flag]
  obtain ⟨m', loop, total⟩ : ∃ m', ((List.replicate msgs.length (flag true)).zip msgs).foldlM (Param.parseUpdateMsg env)
        (m, p, (List.replicate msgs.length (flag true)).all (· ≠ 0)) = .ok (m', p, false) ∧
      Accumulated m m' p.grad.ptr p.size (vss.map coord).sum := by
    rw [reset]
    cases copied with
    | nil => exact absurd rfl some
    | @cons msg values msgs vss first rest =>
      obtain ⟨numLocal, frames⟩ := first.frames
      have pass := Param.parseUpdateMsg_copied env (m := m) first.cursor frames first.length true
      have merged := mergeGrad_accumulated (p := p) m true first.length
      obtain ⟨m', loop, total⟩ := parseLoop_copied env rest (Param.mergeGrad m p true values)
      refine ⟨m', ?_, ?_, fun q k apart => (total.frame q k apart).trans (merged.frame q k apart)⟩
      · rw [List.length_cons, List.replicate_succ, List.zip_cons_cons, List.foldlM_cons]
        exact Run.do_ok.mpr ⟨_, pass, loop⟩
      · rw [total.sum, merged.sum, if_pos rfl, List.map_cons, List.sum_cons]
  obtain ⟨m'', run, value, frame⟩ := parseUpdateMsgs_div env flags some loop
  refine ⟨m'', run, ?_, fun q k apart => (frame q k apart).trans (total.frame q k apart)⟩
  rw [value, total.sum]
  have pos := List.length_pos_iff.mpr some
  split_ifs with many
  · rfl
  · rw [show msgs.length = 1 by omega, Nat.cast_one]

/-! ## The stub's part -/

/-- Adding the gradients of the other shares to the first one's. -/
theorem foldl_addGrad {sum : Ptr} {n : Nat} (shares : List (Param α)) (m : Mem α)
    (apart : ∀ p ∈ shares, Apart p.grad.ptr n sum n) :
    Accumulated m (shares.foldl (Trainer.addGrad sum n) m) sum n
      (coord (m.read sum n) + (shares.map fun p => coord (m.read p.grad.ptr n)).sum) := by
  induction shares generalizing m with
  | nil => exact ⟨by simp, fun _ _ _ => rfl⟩
  | cons p shares ih =>
    have length : (List.zipWith (· + ·) (m.read sum n) (m.read p.grad.ptr n)).length = n := by simp
    have frame (q : Ptr) (k : Nat) (h : Apart q k sum n) : (Trainer.addGrad sum n m p).read q k = m.read q k :=
      m.read_write_apart (by rwa [length])
    have rest := ih (Trainer.addGrad sum n m p) fun q mem => apart q (List.mem_cons_of_mem p mem)
    refine ⟨?_, fun q k h => (rest.frame q k h).trans (frame q k h)⟩
    have here : coord ((Trainer.addGrad sum n m p).read sum n) =
        coord (m.read sum n) + coord (m.read p.grad.ptr n) := by
      have back := Mem.read_write_self m sum (List.zipWith (· + ·) (m.read sum n) (m.read p.grad.ptr n))
      rw [length] at back
      rw [Trainer.addGrad, back, coord_zipWith_add (by simp)]
    have others : (shares.map fun q => coord ((Trainer.addGrad sum n m p).read q.grad.ptr n)) =
        shares.map fun q => coord (m.read q.grad.ptr n) := by
      apply List.map_congr_left
      intro q mem
      rw [frame q.grad.ptr n (apart q (List.mem_cons_of_mem p mem))]
    rw [List.foldl_cons, rest.sum, here, others, List.map_cons, List.sum_cons, add_assoc]

/-- `averageGrad`: the sum of all gradients over `num_total`, in the place of the first one. -/
theorem averageGrad_ok {entry : ParamEntry α} {p : Param α} {rest : List (Param α)}
    (shares : entry.shares = p :: rest) (m : Mem α)
    (apart : ∀ q ∈ rest, Apart q.grad.ptr p.size p.grad.ptr p.size) :
    ∃ m', Trainer.averageGrad m entry = .ok m' ∧
      coord (m'.read p.grad.ptr p.size) = fun i =>
        (entry.shares.map fun q => coord (m.read q.grad.ptr p.size)).sum i / (entry.numTotal : α) := by
  have sums := foldl_addGrad rest m apart
  have front : entry.front = .ok p := by rw [ParamEntry.front, shares]
  have run : Trainer.averageGrad m entry = .ok ((rest.foldl (Trainer.addGrad p.grad.ptr p.size) m).write p.grad.ptr
      (((rest.foldl (Trainer.addGrad p.grad.ptr p.size) m).read p.grad.ptr p.size).map
        (· / (entry.numTotal : α)))) := by
    refine Run.do_ok.mpr ⟨p, front, ?_⟩
    rw [shares, List.tail_cons]
  refine ⟨_, run, ?_⟩
  · generalize rest.foldl (Trainer.addGrad p.grad.ptr p.size) m = m' at sums
    have back := Mem.read_write_self m' p.grad.ptr
      ((m'.read p.grad.ptr p.size).map (· / (entry.numTotal : α)))
    rw [List.length_map, Mem.read_length] at back
    rw [back, coord_map_div, sums.sum, shares, List.map_cons, List.sum_cons]

end Server

/-- One process at the last `kUpdate` of a round: its stub, its memory, the entry and the message. -/
structure Place (α : Type) where
  trainer : Trainer
  mem : Mem α
  entry : ParamEntry α
  msg : Msg α

/-- The process holds `held` of the `total` shares of a parameter with slices of the given sizes,
numbered from `start`, all of them kept by servers of other processes. -/
structure Place.Ready (total : Nat) (sizes : List Nat) (start held : Nat) (pl : Place α) : Prop where
  count : pl.entry.shares.length = held
  some : 0 < held
  numLocal : pl.entry.numLocal = held
  numTotal : pl.entry.numTotal = total
  numUpdate : pl.entry.numUpdate + 1 = held
  sized : ∀ p ∈ pl.entry.shares, p.size = sizes.sum
  apart : pl.entry.shares.Pairwise fun p q => Apart q.grad.ptr sizes.sum p.grad.ptr sizes.sum
  tiled : ∀ p ∈ pl.entry.shares, p.Tiled ∧ p.sliceSize = sizes ∧ p.sliceStart = start
  flags : ∀ p ∈ pl.entry.shares, p.pendingUpdate.length = p.numSlices
  per : pl.trainer.cluster.proto.nworkerGroupsPerServerGroup ≠ 0
  serves : start + sizes.length ≤ pl.trainer.slice2server.length
  remote : ∀ idx < sizes.length, pl.trainer.copies (pl.trainer.dstGrp pl.msg.src.grp)
    (pl.trainer.serverOf (start + idx)) = true

namespace Place

variable [Field α]

/-- The sum of the gradients that the shares of the process have for a slice. -/
def gradSum (pl : Place α) (offset size : Nat) : Nat → α :=
  (pl.entry.shares.map fun p => coord (pl.mem.read (p.grad.ptr.add offset) size)).sum

/-- What the stub makes of it. -/
def contribution (pl : Place α) (offset size : Nat) : Nat → α :=
  fun i => pl.gradSum offset size i / if 1 < pl.entry.numLocal then (pl.entry.numTotal : α) else 1

/-- The request that the stub sends for the slice `idx`. -/
def request (pl : Place α) (idx : Nat) : Run (Msg α) := do
  let (_, _, requests) ← pl.trainer.handleUpdate pl.mem pl.entry pl.msg
  match requests[idx]? with
  | some request => .ok request
  | none => .error .range

/-- A slice of a window, by coordinates. -/
theorem coord_read_add (m : Mem α) (p : Ptr) {offset size n : Nat} (inside : offset + size ≤ n) (i : Nat) :
    coord (m.read (p.add offset) size) i = if i < size then coord (m.read p n) (offset + i) else 0 := by
  by_cases lt : i < size
  · rw [if_pos lt, coord_of_lt (by simpa using lt), coord_of_lt (by simp; omega)]
    simp [Nat.add_assoc]
  · rw [if_neg lt, coord_of_le (by simp; omega)]

/-- A sum of vectors, by coordinates. -/
theorem list_sum_apply {β : Type} (l : List β) (f : β → Nat → α) (i : Nat) :
    (l.map f).sum i = (l.map fun b => f b i).sum := by
  induction l with
  | nil => rfl
  | cons b l ih => simp [ih]

/-- The stub's gradient before the requests are made: averaged if there are several shares. -/
theorem Ready.averaged {total start held : Nat} {sizes : List Nat} {pl : Place α}
    (h : pl.Ready total sizes start held) {p : Param α} {rest : List (Param α)}
    (shares : pl.entry.shares = p :: rest) (entry : ParamEntry α) (same : entry.shares = pl.entry.shares)
    (totals : entry.numTotal = pl.entry.numTotal) :
    ∃ m, (if 1 < pl.entry.numLocal then Trainer.averageGrad pl.mem entry else .ok pl.mem) = .ok m ∧
      coord (m.read p.grad.ptr sizes.sum) = fun i =>
        (pl.entry.shares.map fun q => coord (pl.mem.read q.grad.ptr sizes.sum)).sum i /
          if 1 < pl.entry.numLocal then (pl.entry.numTotal : α) else 1 := by
  have size : p.size = sizes.sum := h.sized p (by rw [shares]; exact List.mem_cons_self)
  split
  · have apart := h.apart
    rw [shares, List.pairwise_cons] at apart
    rw [← size] at apart
    obtain ⟨m, run, sum⟩ := averageGrad_ok (same.trans shares) pl.mem apart.1
    refine ⟨m, run, ?_⟩
    rw [← size, sum, same, totals]
  · rename_i single
    have one : rest = [] := by
      have count := h.count
      have held := h.numLocal
      rw [shares, List.length_cons] at count
      exact List.length_eq_zero_iff.mp (by omega)
    refine ⟨pl.mem, rfl, ?_⟩
    rw [shares, one]
    simp

/-- **The request of a process for a slice** carries the stub's contribution and counts for its shares. -/
theorem Ready.request {total start held : Nat} {sizes : List Nat} {pl : Place α}
    (h : pl.Ready total sizes start held) {idx : Nat} (lt : idx < sizes.length) :
    ∃ r values, pl.request idx = .ok r ∧ Copied sizes[idx] r values ∧ Request sizes[idx] (held : Int) r ∧
      r.sliceId = (start + idx : Nat) ∧
      coord values = pl.contribution (sizes.take idx).sum sizes[idx] := by
  obtain ⟨p, rest, shares⟩ : ∃ p rest, pl.entry.shares = p :: rest := by
    have pos := h.some
    rw [← h.count] at pos
    exact List.exists_cons_of_length_pos pos
  have mem : p ∈ pl.entry.shares := by rw [shares]; exact List.mem_cons_self
  obtain ⟨tiled, tableSizes, tableStart⟩ := h.tiled p mem
  have slices : p.numSlices = sizes.length := by rw [tiled.count, tableSizes]
  have below : idx < p.numSlices := slices ▸ lt
  have offset : p.offsetOf idx = (sizes.take idx).sum := by rw [tiled.offsetOf_eq below, tableSizes]
  have size : p.sizeOf idx = sizes[idx] := by simp [Param.sizeOf, tableSizes, lt]
  have inside := tiled.slice_le below
  rw [offset, size, h.sized p mem] at inside
  have serves : pl.trainer.Serves p := by
    have := h.serves
    unfold Trainer.Serves
    omega
  obtain ⟨m, averaged, grad⟩ := h.averaged shares { pl.entry with numUpdate := pl.entry.numUpdate + 1 } rfl rfl
  have full : pl.entry.numLocal ≤ pl.entry.numUpdate + 1 := by rw [h.numUpdate, h.numLocal]
  have sent : pl.trainer.handleUpdate pl.mem pl.entry pl.msg = _ :=
    Trainer.handleUpdate_send full averaged h.per shares tiled.tabled serves (h.flags p mem)
  have copy : pl.trainer.copies (pl.trainer.dstGrp pl.msg.src.grp) (pl.trainer.serverOf (p.sliceStart + idx)) =
      true := by
    rw [tableStart]
    exact h.remote idx lt
  have wellFormed := pl.trainer.updateRequest_request pl.msg.trgtVersion m pl.entry.numLocal pl.msg.src.grp
    (pl.trainer.dstGrp pl.msg.src.grp) p idx
  rw [size, h.numLocal] at wellFormed
  refine ⟨_, m.read (p.grad.ptr.add (sizes.take idx).sum) sizes[idx], ?_, ⟨rfl, by simp, held, ?_⟩, wellFormed,
    ?_, ?_⟩
  · refine Run.do_ok.mpr ⟨_, sent, ?_⟩
    simp only [List.getElem?_map, List.getElem?_range below, Option.map_some, h.numLocal]
  · simp [Trainer.updateRequest, Trainer.sliceMsg, Trainer.updateFrames, copy, offset, size]
  · simp [Trainer.updateRequest, Trainer.sliceMsg, tableStart]
  · funext i
    rw [contribution, gradSum, coord_read_add m p.grad.ptr inside, grad]
    simp only [list_sum_apply, coord_read_add pl.mem _ inside]
    by_cases inSlice : i < sizes[idx]
    · simp only [inSlice, if_true]
    · simp [inSlice]

end Place

/-! ## Both together -/

/-- An updater that keeps the gradient it is called with. -/
def recorder : Env α where
  update _ _ _ grad history := (grad, grad, history)
  mix _ x _ := x

section Compose

variable [Field α]

/-- A parameter of one float in one slice, with its gradient in a block of its own. -/
def unitParam (i : Nat) : Param α where
  localVersion := 0
  sliceStart := 0
  numSlices := 1
  sliceOffset := [0]
  sliceSize := [1]
  pendingPut := [false]
  pendingGet := [false]
  pendingUpdate := [false]
  numPendingRequests := 0
  data := ⟨1, 0, ⟨0, 0⟩⟩
  grad := ⟨1, 0, ⟨i + 1, 0⟩⟩
  history := []
  proto := .default

/-- A process with `held` shares whose gradients are all 1. -/
def Place.unit (total held : Nat) : Place α where
  trainer := ⟨⟨⟨1, 1, 1, 1⟩, fun _ _ => 1⟩, 0, [0]⟩
  mem := ⟨fun _ _ => 1, held + 1⟩
  entry := ⟨held - 1, -1, held, total, (List.range held).map unitParam⟩
  msg := {}

/-- A server in another process that waits for the gradients of `total` shares. -/
def Host.unit (total : Nat) : Host α where
  mem := ⟨fun _ _ => 1, 2⟩
  shard := fun slice => if slice = 0 then some (.ofPut total (unitParam 0)) else none
  server := ⟨0, 0, [0], fun _ => [], fun _ => none, [], 0⟩

end Compose

end Singa
