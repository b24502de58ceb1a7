import Singa.Trainer.GradMean

/-!
# Aggregation of copied and shared gradients

A worker in the server's process sends a pointer to its gradient instead of a
copy. When the server's gradient is elsewhere, `ParseUpdateMsgs` copies the
server's old values over the worker's, as many bytes as the message frame has,
and takes the worker's buffer for its own. The sum therefore loses the shared
gradient in the first four places, and what was added to the server's own buffer
in the others; a second request for the same buffer adds nothing. The frame has
17 bytes: in a slice of less than five floats the copy reads and writes past the
end of the slice.
-/

namespace Singa
set_option autoImplicit false

open Memory Vec

variable {α : Type}

/-- An update request that carries a copy of a gradient, or points to the buffer `buf`. -/
structure Carries (size : Nat) (buf : Ptr) (msg : Msg α) (grad : Option (List α)) : Prop where
  cursor : msg.cursor = 0
  length : ∀ values ∈ grad, values.length = size
  frames : ∃ numLocal, msg.frames = [.format [.int (flag grad.isSome)],
    (match grad with | some values => .data values | none => .format [.ptr (some buf)]), .format [.int numLocal]]

theorem Carries.parseI {size : Nat} {buf : Ptr} {msg : Msg α} {grad : Option (List α)} (h : Carries size buf msg grad) :
    msg.parseI = .ok (flag grad.isSome) := by
  obtain ⟨numLocal, frames⟩ := h.frames
  simp [Msg.parseI, Msg.args, Msg.frame, frames, h.cursor]
  rfl

theorem mapM_parseI_carries {size : Nat} {buf : Ptr} {msgs : List (Msg α)} {grads : List (Option (List α))}
    (carries : List.Forall₂ (Carries size buf) msgs grads) :
    msgs.mapM Msg.parseI = .ok (grads.map fun g => flag g.isSome) := by
  induction carries with
  | nil => rfl
  | cons first _ ih =>
    rw [List.mapM_cons]
    exact Run.do_ok.mpr ⟨_, first.parseI, Run.do_ok.mpr ⟨_, ih, rfl⟩⟩

theorem Carries.copied {size : Nat} {buf : Ptr} {msg : Msg α} {grad : Option (List α)} (h : Carries size buf msg grad)
    (copy : grad.isSome) : Copied size msg (grad.getD []) := by
  obtain ⟨values, rfl⟩ := Option.isSome_iff_exists.mp copy
  exact ⟨h.cursor, h.length values rfl, h.frames⟩

theorem forall₂_copied {size : Nat} {buf : Ptr} {msgs : List (Msg α)} {grads : List (Option (List α))}
    (carries : List.Forall₂ (Carries size buf) msgs grads) (copies : ∀ g ∈ grads, g.isSome) :
    List.Forall₂ (Copied size) msgs (grads.map (·.getD [])) := by
  induction carries with
  | nil => exact .nil
  | cons first _ ih =>
    exact .cons (first.copied (copies _ List.mem_cons_self)) (ih fun g mem => copies g (List.mem_cons_of_mem _ mem))

namespace Param

/-- `memcpy`, cell by cell. -/
theorem memcpy_cells (env : Env α) (m : Mem α) (dst src : Ptr) (bytes i : Nat) :
    (memcpy env m dst src bytes).cells dst.blk (dst.off + i) =
      if i < bytes / 4 then m.cells src.blk (src.off + i)
      else if i = bytes / 4 ∧ bytes % 4 ≠ 0 then
        env.mix (bytes % 4) (m.cells src.blk (src.off + i)) (m.cells dst.blk (dst.off + i))
      else m.cells dst.blk (dst.off + i) := by
  simp only [memcpy, Mem.write, true_and, Nat.le_add_right, if_true, Nat.add_sub_cancel_left]
  by_cases low : i < bytes / 4
  · rw [if_pos low, List.getElem?_append_left (by simpa using low), Mem.getElem?_read _ _ low, Option.getD_some]
  · rw [if_neg low, List.getElem?_append_right (by simpa using low), Mem.read_length]
    by_cases whole : bytes % 4 = 0
    · simp [whole]
    · by_cases last : i = bytes / 4
      · subst last
        simp [whole, Mem.read, Ptr.add]
      · rw [if_neg whole, if_neg fun h => last h.1, List.getElem?_eq_none (by simp; omega), Option.getD_none]

end Param

/-- The number of requests that share the buffer. -/
def sharers (grads : List (Option (List α))) : Nat := (grads.filter Option.isNone).length

@[simp] theorem sharers_some (values : List α) (grads : List (Option (List α))) :
    sharers (some values :: grads) = sharers grads := rfl

@[simp] theorem sharers_none (grads : List (Option (List α))) : sharers (none :: grads) = sharers grads + 1 := rfl

theorem sharers_eq_zero {grads : List (Option (List α))} : sharers grads = 0 ↔ ∀ g ∈ grads, g.isSome := by
  simp [sharers, Option.isSome_iff_ne_none]

section Sum

variable [Field α]

/-- The sum of the copied gradients. -/
def copySum (grads : List (Option (List α))) : Nat → α := (grads.map fun g => coord (g.getD [])).sum

/-- The gradient that a worker had when it sent its request. -/
def sentGrad (m : Mem α) (buf : Ptr) (size : Nat) (grad : Option (List α)) : Nat → α :=
  coord (grad.getD (m.read buf size))

@[simp] theorem copySum_nil : copySum ([] : List (Option (List α))) = 0 := rfl

@[simp] theorem copySum_some (values : List α) (grads : List (Option (List α))) :
    copySum (some values :: grads) = coord values + copySum grads := rfl

@[simp] theorem copySum_none (grads : List (Option (List α))) : copySum (none :: grads) = copySum grads :=
  zero_add (copySum grads)

/-- The copies that arrive before the first pointer. -/
def copiedBefore (grads : List (Option (List α))) : Nat → α := copySum (grads.takeWhile Option.isSome)

/-- All gradients together: the copies, and the shared one as often as it was sent. -/
theorem sum_sentGrad (m : Mem α) (buf : Ptr) (size : Nat) (grads : List (Option (List α))) (i : Nat) :
    (grads.map (sentGrad m buf size)).sum i = copySum grads i + sharers grads * coord (m.read buf size) i := by
  induction grads with
  | nil => simp [sharers]
  | cons g grads ih =>
    rw [List.map_cons, List.sum_cons, Pi.add_apply, ih]
    cases g with
    | some values =>
      rw [copySum_some, sharers_some, Pi.add_apply, add_assoc]
      rfl
    | none =>
      rw [copySum_none, sharers_none, sentGrad, Option.getD_none]
      push_cast
      ring

end Sum

section Server

variable [Field α] {p : Param α} {msgs : List (Msg α)} {grads : List (Option (List α))}

/-- The second loop of `ParseUpdateMsgs`, once the server has the shared buffer: pointers add nothing. -/
theorem parseLoop_adopted (env : Env α) (carries : List.Forall₂ (Carries p.size p.grad.ptr) msgs grads) (m : Mem α) :
    ∃ m', ((grads.map fun g => flag g.isSome).zip msgs).foldlM (Param.parseUpdateMsg env) (m, p, false) =
        .ok (m', p, false) ∧
      Accumulated m m' p.grad.ptr p.size (coord (m.read p.grad.ptr p.size) + copySum grads) := by
  induction carries generalizing m with
  | nil => exact ⟨m, rfl, by simp, fun _ _ _ => rfl⟩
  | @cons msg g msgs grads first _ ih =>
    obtain ⟨numLocal, frames⟩ := first.frames
    cases g with
    | some values =>
      have length := first.length values rfl
      have pass := Param.parseUpdateMsg_copied env (m := m) first.cursor frames length false
      have merged := mergeGrad_accumulated (p := p) m false length
      obtain ⟨m', rest, total⟩ := ih (Param.mergeGrad m p false values)
      refine ⟨m', Run.foldlM_cons_ok pass rest, ?_, fun q k apart => (total.frame q k apart).trans (merged.frame q k apart)⟩
      have sum := merged.sum
      simp only [Bool.false_eq_true, if_false] at sum
      rw [total.sum, sum, copySum_some, add_assoc]
    | none =>
      have pass := Param.parseUpdateMsg_shared env (m := m) (p := p) first.cursor frames false
      rw [if_pos rfl] at pass
      obtain ⟨m', rest, total⟩ := ih m
      refine ⟨m', Run.foldlM_cons_ok pass rest, ?_, total.frame⟩
      rw [total.sum, copySum_none]

/-- What the shared buffer holds after the server's old values `old` were copied into it. -/
def overlay (env : Env α) (old shared : Nat → α) (i : Nat) : α :=
  if i < 4 then old i else if i = 4 then env.mix 1 (old i) (shared i) else shared i

/-- The buffer when the server takes it over. -/
theorem coord_memcpy (env : Env α) (m : Mem α) (dst src : Ptr) {n i : Nat} (lt : i < n) :
    coord ((Param.memcpy env m dst src 17).read dst n) i =
      overlay env (coord (m.read src n)) (coord (m.read dst n)) i := by
  have cell (m : Mem α) (q : Ptr) : coord (m.read q n) i = m.cells q.blk (q.off + i) := by
    rw [coord_of_lt (by simpa using lt), Mem.getElem_read]
  rw [cell, overlay, cell, cell, Param.memcpy_cells]
  split_ifs <;> first | rfl | omega

/-- The second loop while the server has a buffer of its own, with a pointer to come. -/
theorem parseLoop_own (env : Env α) {buf : Ptr} (carries : List.Forall₂ (Carries p.size buf) msgs grads)
    (other : p.grad.ptr ≠ buf) (pointer : none ∈ grads) (m : Mem α) (apart : Apart buf p.size p.grad.ptr p.size) :
    ∃ m', ((grads.map fun g => flag g.isSome).zip msgs).foldlM (Param.parseUpdateMsg env) (m, p, false) =
        .ok (m', { p with grad := { p.grad with ptr := buf } }, false) ∧
      ∀ i < p.size, coord (m'.read buf p.size) i =
        overlay env (coord (m.read p.grad.ptr p.size) + copiedBefore grads) (coord (m.read buf p.size)) i +
          (copySum grads i - copiedBefore grads i) := by
  induction carries generalizing m with
  | nil => cases pointer
  | @cons msg g msgs grads first rest ih =>
    obtain ⟨numLocal, frames⟩ := first.frames
    cases g with
    | some values =>
      have length := first.length values rfl
      have pass := Param.parseUpdateMsg_copied env (m := m) first.cursor frames length false
      have merged := mergeGrad_accumulated (p := p) m false length
      obtain ⟨m', loop, total⟩ := ih (by simpa using pointer) (Param.mergeGrad m p false values)
      refine ⟨m', Run.foldlM_cons_ok pass loop, fun i lt => ?_⟩
      have sum := merged.sum
      simp only [Bool.false_eq_true, if_false] at sum
      have before : copiedBefore (some values :: grads) = coord values + copiedBefore grads := by
        rw [copiedBefore, List.takeWhile_cons_of_pos rfl, copySum_some]
        rfl
      rw [total i lt, sum, merged.frame buf p.size apart, before, copySum_some, add_assoc, Pi.add_apply, Pi.add_apply]
      ring
    | none =>
      have pass := Param.parseUpdateMsg_shared env (m := m) (p := p) first.cursor frames false
      rw [if_neg other.symm] at pass
      obtain ⟨m', loop, total⟩ := parseLoop_adopted (p := { p with grad := { p.grad with ptr := buf } }) env rest
        (Param.memcpy env m buf p.grad.ptr 17)
      refine ⟨m', Run.foldlM_cons_ok pass loop, fun i lt => ?_⟩
      have before : copiedBefore (none :: grads) = 0 := rfl
      have sum : coord (m'.read buf p.size) = _ := total.sum
      rw [sum, before, copySum_none, add_zero, Pi.zero_apply, sub_zero, Pi.add_apply]
      show coord ((Param.memcpy env m buf p.grad.ptr 17).read buf p.size) i + _ = _
      rw [coord_memcpy env m buf p.grad.ptr lt]

/-! ## Inside the slice -/

/-- The passes of the second loop. -/
abbrev passes (msgs : List (Msg α)) (grads : List (Option (List α))) : List (Int × Msg α) :=
  (grads.map fun g => flag g.isSome).zip msgs

omit [Field α] in
/-- A pointer makes the server copy 17 bytes, unless it has the buffer. -/
theorem Carries.overruns_iff {buf : Ptr} {msg : Msg α} (h : Carries p.size buf msg none) (m : Mem α) (reset : Bool) :
    Param.Overruns (m, p, reset) (flag false, msg) ↔ ¬ (p.grad.ptr = buf ∨ 5 ≤ p.size) := by
  obtain ⟨numLocal, frames⟩ := h.frames
  have frame : msg.nextFrame.1.frame = .ok (.format [.ptr (some buf)]) := by
    simp [Msg.nextFrame, Msg.frame, frames, h.cursor]
  have pointer : msg.nextFrame.1.parseP = .ok (some buf) := by
    simp [Msg.parseP, Msg.args, frame, bind, Except.bind]
  have bytes : (Frame.format [.ptr (some buf)] : Frame α).size = 17 := rfl
  rw [not_or, not_le]
  constructor
  · rintro ⟨-, ptr, here, parsed, other, found, long⟩
    rw [pointer] at parsed
    cases parsed
    rw [frame] at found
    cases found
    rw [bytes] at long
    have few : 4 * p.size < 17 := long
    exact ⟨fun same => other (congrArg some same.symm), by omega⟩
  · rintro ⟨other, few⟩
    have long : 4 * p.size < 17 := by omega
    exact ⟨rfl, _, _, pointer, fun same => other (Option.some.inj same).symm, frame, long⟩

/-- The server has the buffer: nothing is copied. -/
theorem staysInside_adopted (env : Env α) (carries : List.Forall₂ (Carries p.size p.grad.ptr) msgs grads) (m : Mem α)
    (reset : Bool) : Param.StaysInside env (passes msgs grads) (m, p, reset) := by
  induction carries generalizing m reset with
  | nil => trivial
  | @cons msg g msgs grads first rest ih =>
    obtain ⟨numLocal, frames⟩ := first.frames
    cases g with
    | some values =>
      have pass := Param.parseUpdateMsg_copied env (m := m) first.cursor frames (first.length values rfl) reset
      refine ⟨fun leaves => absurd leaves.1 (by simp [flag]), fun t same => ?_⟩
      obtain rfl := Except.ok.inj (pass.symm.trans same)
      exact ih _ _
    | none =>
      have pass := Param.parseUpdateMsg_shared env (m := m) (p := p) first.cursor frames reset
      rw [if_pos rfl] at pass
      refine ⟨fun leaves => (first.overruns_iff m reset).mp leaves (.inl rfl), fun t same => ?_⟩
      obtain rfl := Except.ok.inj (pass.symm.trans same)
      exact ih _ _

/-- The loop stays inside the slice when no pointer comes, the server has the buffer, or 17 bytes fit. -/
theorem staysInside_iff (env : Env α) {buf : Ptr} (carries : List.Forall₂ (Carries p.size buf) msgs grads) (m : Mem α)
    (reset : Bool) : Param.StaysInside env (passes msgs grads) (m, p, reset) ↔
      sharers grads = 0 ∨ p.grad.ptr = buf ∨ 5 ≤ p.size := by
  induction carries generalizing m reset with
  | nil => exact iff_of_true trivial (.inl rfl)
  | @cons msg g msgs grads first rest ih =>
    obtain ⟨numLocal, frames⟩ := first.frames
    cases g with
    | some values =>
      have pass := Param.parseUpdateMsg_copied env (m := m) first.cursor frames (first.length values rfl) reset
      rw [sharers_some, ← ih (Param.mergeGrad m p reset values) false]
      constructor
      · exact fun inside => inside.2 _ pass
      · refine fun inside => ⟨fun leaves => absurd leaves.1 (by simp [flag]), fun t same => ?_⟩
        obtain rfl := Except.ok.inj (pass.symm.trans same)
        exact inside
    | none =>
      have pass := Param.parseUpdateMsg_shared env (m := m) (p := p) first.cursor frames reset
      rw [sharers_none, or_iff_right (Nat.succ_ne_zero _), ← not_not (a := _ ∨ _), ← first.overruns_iff m reset]
      refine ⟨fun inside => inside.1, fun inside => ⟨inside, fun t same => ?_⟩⟩
      obtain rfl := Except.ok.inj (pass.symm.trans same)
      split
      · rename_i own
        subst own
        exact staysInside_adopted env rest m reset
      · exact staysInside_adopted (p := { p with grad := { p.grad with ptr := buf } }) env rest _ _

/-- The copies stay inside the slice, and the server's gradient is afterwards the sum of the gradients sent over
the number of requests. -/
def Averages (env : Env α) (m : Mem α) (p : Param α) (buf : Ptr) (msgs : List (Msg α))
    (grads : List (Option (List α))) : Prop :=
  (∀ copies, msgs.mapM Msg.parseI = .ok copies →
    Param.StaysInside env (copies.zip msgs) (m, p, copies.all (· ≠ 0))) ∧
  ∃ m' p', p.parseUpdateMsgs env m msgs = .ok (m', p') ∧ ∀ i < p.size,
    coord (m'.read p'.grad.ptr p.size) i = (grads.map (sentGrad m buf p.size)).sum i / (msgs.length : α)

/-- No request points to the buffer, or the slice has room for the copy and its values happen to hide what is
lost. -/
def NothingLost (env : Env α) (m : Mem α) (p : Param α) (buf : Ptr) (grads : List (Option (List α))) : Prop :=
  sharers grads = 0 ∨ (p.grad.ptr = buf ∨ 5 ≤ p.size) ∧ ∀ i < p.size,
    let shared := coord (m.read buf p.size) i
    let own := coord (m.read p.grad.ptr p.size) i
    if p.grad.ptr = buf then (sharers grads - 1 : α) * shared = 0
    else if i < 4 then own = sharers grads * shared
    else if i = 4 then env.mix 1 (own + copiedBefore grads i) shared = copiedBefore grads i + sharers grads * shared
    else copiedBefore grads i + (sharers grads - 1) * shared = 0

theorem inside_iff (env : Env α) {buf : Ptr} (carries : List.Forall₂ (Carries p.size buf) msgs grads) (m : Mem α) :
    (∀ copies, msgs.mapM Msg.parseI = .ok copies →
      Param.StaysInside env (copies.zip msgs) (m, p, copies.all (· ≠ 0))) ↔
      sharers grads = 0 ∨ p.grad.ptr = buf ∨ 5 ≤ p.size := by
  rw [mapM_parseI_carries carries]
  constructor
  · exact fun inside => (staysInside_iff env carries m _).mp (inside _ rfl)
  · rintro enough _ ⟨⟩
    exact (staysInside_iff env carries m _).mpr enough

/-- Copied gradients only. -/
theorem averages_of_copied (env : Env α) {buf : Ptr} (carries : List.Forall₂ (Carries p.size buf) msgs grads)
    (some : msgs ≠ []) (m : Mem α) (copied : sharers grads = 0) : Averages env m p buf msgs grads := by
  obtain ⟨m', run, total⟩ := parseUpdateMsgs_copied env (forall₂_copied carries (sharers_eq_zero.mp copied)) some m
  refine ⟨(inside_iff env carries m).mpr (.inl copied), m', p, run, fun i _ => ?_⟩
  have sum : ((grads.map (·.getD [])).map coord).sum = copySum grads := by
    rw [List.map_map]
    rfl
  rw [total.sum, sum_sentGrad, copied, sum, Nat.cast_zero, zero_mul, add_zero]
  have pos := List.length_pos_iff.mpr some
  split_ifs with many
  · rfl
  · rw [show msgs.length = 1 by omega, Nat.cast_one]

/-- The gradient that the server is left with when a pointer arrives. -/
theorem parseUpdateMsgs_shared (env : Env α) {buf : Ptr} (carries : List.Forall₂ (Carries p.size buf) msgs grads)
    (m : Mem α) (sep : p.grad.ptr = buf ∨ Apart buf p.size p.grad.ptr p.size) (pointer : none ∈ grads) :
    ∃ m' p', p.parseUpdateMsgs env m msgs = .ok (m', p') ∧ ∀ i < p.size,
      coord (m'.read p'.grad.ptr p.size) i = (if p.grad.ptr = buf then coord (m.read buf p.size) i + copySum grads i
        else overlay env (coord (m.read p.grad.ptr p.size) + copiedBefore grads) (coord (m.read buf p.size)) i +
          (copySum grads i - copiedBefore grads i)) / (msgs.length : α) := by
  have flags := mapM_parseI_carries carries
  have reset : (grads.map fun g => flag g.isSome).all (· ≠ 0) = false := by
    rw [List.all_eq_false]
    exact ⟨0, List.mem_map.mpr ⟨none, pointer, rfl⟩, by simp⟩
  have some : msgs ≠ [] := by
    rintro rfl
    cases carries
    cases pointer
  by_cases own : p.grad.ptr = buf
  · subst own
    obtain ⟨m', loop, total⟩ := parseLoop_adopted env carries m
    rw [← reset] at loop
    obtain ⟨m'', run, mean, -⟩ := parseUpdateMsgs_div env flags some loop
    refine ⟨m'', p, run, fun i _ => ?_⟩
    rw [mean, total.sum, if_pos rfl]
    rfl
  · obtain ⟨m', loop, total⟩ := parseLoop_own env carries own pointer m (sep.resolve_left own)
    rw [← reset] at loop
    obtain ⟨m'', run, mean, -⟩ := parseUpdateMsgs_div env flags some loop
    refine ⟨m'', _, run, fun i lt => ?_⟩
    rw [if_neg own, ← total i lt]
    exact congrFun mean i

variable [CharZero α]

/-- **`ParseUpdateMsgs` averages exactly when nothing is lost**: with copies only, or where the
values at the buffers hide it. -/
theorem averages_iff_nothingLost (env : Env α) (m : Mem α) (buf : Ptr)
    (carries : List.Forall₂ (Carries p.size buf) msgs grads) (some : msgs ≠ [])
    (sep : p.grad.ptr = buf ∨ Apart buf p.size p.grad.ptr p.size) :
    Averages env m p buf msgs grads ↔ NothingLost env m p buf grads := by
  by_cases copied : sharers grads = 0
  · exact iff_of_true (averages_of_copied env carries some m copied) (.inl copied)
  have pointer : none ∈ grads := by
    rw [sharers_eq_zero] at copied
    simpa using copied
  obtain ⟨m', p', run, result⟩ := parseUpdateMsgs_shared env carries m sep pointer
  have count : (msgs.length : α) ≠ 0 := Nat.cast_ne_zero.mpr (mt List.length_eq_zero_iff.mp some)
  have mean : Averages env m p buf msgs grads ↔ (p.grad.ptr = buf ∨ 5 ≤ p.size) ∧
      ∀ i < p.size, coord (m'.read p'.grad.ptr p.size) i =
        (grads.map (sentGrad m buf p.size)).sum i / (msgs.length : α) := by
    rw [Averages, inside_iff env carries m, or_iff_right copied]
    refine and_congr_right fun _ => ⟨?_, fun all => ⟨m', p', run, all⟩⟩
    rintro ⟨_, _, same, all⟩
    rw [run] at same
    cases same
    exact all
  rw [mean, NothingLost, or_iff_right copied]
  refine and_congr_right fun _ => forall_congr' fun i => forall_congr' fun lt => ?_
  rw [result i lt, sum_sentGrad, div_left_inj' count]
  simp only [overlay, Pi.add_apply]
  split_ifs
  · exact ⟨fun h => by linear_combination -h, fun h => by linear_combination -h⟩
  · exact ⟨fun h => by linear_combination h, fun h => by linear_combination h⟩
  · exact ⟨fun h => by linear_combination h, fun h => by linear_combination h⟩
  · exact ⟨fun h => by linear_combination -h, fun h => by linear_combination -h⟩

end Server

section Examples

/-- A parameter of six floats in one slice, with its gradient in block 1. -/
def sixFloats : Param ℚ :=
  { unitParam 0 with sliceSize := [6], data := ⟨6, 0, ⟨0, 0⟩⟩, grad := ⟨6, 0, ⟨1, 0⟩⟩ }

/-- A request with a copy of a gradient, and one for the buffer at block 2. -/
def copiedSix : Msg ℚ :=
  { type := .kUpdate, frames := [.format [.int 1], .data [1, 2, 3, 4, 5, 0], .format [.int 1]] }

def sharedSix : Msg ℚ := { type := .kUpdate, frames := [.format [.int 0], .format [.ptr (some ⟨2, 0⟩)], .format [.int 1]] }

theorem copiedSix_carries : Carries 6 ⟨2, 0⟩ copiedSix (some [1, 2, 3, 4, 5, 0]) :=
  ⟨rfl, by rintro _ ⟨⟩; rfl, ⟨1, rfl⟩⟩

theorem sharedSix_carries : Carries 6 ⟨2, 0⟩ sharedSix none := ⟨rfl, by rintro _ ⟨⟩, ⟨1, rfl⟩⟩

/-- Where the server's old gradient is the worker's, and the copy has nothing from the sixth float on, nothing is
lost. -/
theorem equalGrads_averages : Averages recorder ⟨fun _ off => (off : ℚ) + 1, 3⟩ sixFloats ⟨2, 0⟩ [copiedSix, sharedSix]
    [some [1, 2, 3, 4, 5, 0], none] := by
  have carries : List.Forall₂ (Carries sixFloats.size ⟨2, 0⟩) [copiedSix, sharedSix] [some [1, 2, 3, 4, 5, 0], none] :=
    .cons copiedSix_carries (.cons sharedSix_carries .nil)
  refine (averages_iff_nothingLost recorder _ _ carries (by simp) (.inr (.of_blk (by decide)))).mpr (.inr ?_)
  decide +kernel

/-- In the first round the worker's gradient is overwritten by zeros. -/
theorem firstRound_not_averages : List.Forall₂ (Carries sixFloats.size ⟨2, 0⟩) [sharedSix] [none] ∧
    Apart ⟨2, 0⟩ sixFloats.size sixFloats.grad.ptr sixFloats.size ∧
    ¬ Averages recorder ⟨fun b _ => if b = 2 then 1 else 0, 3⟩ sixFloats ⟨2, 0⟩ [sharedSix] [none] := by
  refine ⟨.cons sharedSix_carries .nil, .of_blk (by decide), ?_⟩
  rintro ⟨-, m', p', run, mean⟩
  have left : (sixFloats.parseUpdateMsgs recorder ⟨fun b _ => if b = 2 then 1 else 0, 3⟩ [sharedSix]).map
      (fun s => s.1.read s.2.grad.ptr 6) = .ok [0, 0, 0, 0, 0, (1 : ℚ)] := by decide +kernel
  rw [run, Except.map] at left
  have zero := mean 0 (by decide)
  rw [show sixFloats.size = 6 from rfl, Except.ok.inj left] at zero
  revert zero
  decide +kernel

end Examples
end Singa
