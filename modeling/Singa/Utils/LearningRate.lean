import Singa.Utils.Abort

/-!
# `utils/updater.cc`: the learning rate

`GetLearningRate` computes the rate of a step from the updater's configuration.
`float` and `double` are one type of numbers whose operations are any functions:
no law of arithmetic is used. The documented rule of a fixed-step schedule is
that the rate `step_lr[i]` holds from step `step[i]` on, and the loop compares
with `>`: at the change points themselves the rate is still the one before.
-/

namespace Singa
set_option autoImplicit false

/-- `UpdaterProto.ChangeMethod`. -/
inductive ChangeMethod where
  | kFixed
  | kInverseT
  | kInverse
  | kExponential
  | kLinear
  | kStep
  | kFixedStep
  deriving DecidableEq, Repr

structure FixedStepProto (α : Type) where
  step : List Int
  stepLr : List α

structure StepProto (α : Type) where
  gamma : α
  changeFreq : Int

structure LinearProto (α : Type) where
  changeFreq : Int
  finalLr : α

structure ExponentialProto where
  changeFreq : Int

structure InverseTProto (α : Type) where
  finalLr : α

structure InverseProto (α : Type) where
  gamma : α
  pow : α

/-- What `GetLearningRate` reads of an `UpdaterProto`. -/
structure UpdaterProto (α : Type) where
  lrChange : ChangeMethod
  baseLr : α
  fixedstepConf : FixedStepProto α
  stepConf : StepProto α
  linearConf : LinearProto α
  exponentialConf : ExponentialProto
  inverseConf : InverseProto α
  inversetConf : InverseTProto α

namespace FixedStepProto

section Schedule

variable {α : Type}

/-- One pass of the loop over the schedule: `ret` so far and the threshold `at i`. -/
def pass (conf : FixedStepProto α) (step : Int) (ret : α) (i : Nat) : Run α :=
  match conf.step[i]? with
  | none => .error .range
  | some threshold =>
    if threshold < step then
      match conf.stepLr[i]? with
      | none => .error .range
      | some lr => .ok lr
    else .ok ret

/-- A schedule as the documentation of the message has it: thresholds that increase, and a rate for each. -/
structure WellFormed (conf : FixedStepProto α) : Prop where
  increasing : conf.step.Pairwise (· < ·)
  lengths : conf.stepLr.length = conf.step.length

/-- Entry `i` is the last one whose threshold `step` has reached. -/
structure Current (conf : FixedStepProto α) (step : Int) (i : Nat) : Prop where
  bound : i < conf.step.length
  reached : conf.step.get ⟨i, bound⟩ ≤ step
  last : ∀ j (h : j < conf.step.length), conf.step.get ⟨j, h⟩ ≤ step → j ≤ i

/-- No two entries have the same threshold. -/
theorem WellFormed.index_unique {conf : FixedStepProto α} (wf : conf.WellFormed) {threshold : Int} {i j : Nat}
    (hi : conf.step[i]? = some threshold) (hj : conf.step[j]? = some threshold) : i = j := by
  have nodup : conf.step.Nodup := wf.increasing.imp fun lt => ne_of_lt lt
  obtain ⟨bound, -⟩ := List.getElem?_eq_some_iff.mp hi
  exact (List.getElem?_inj bound nodup).mp (hi.trans hj.symm)

theorem Current.unique {conf : FixedStepProto α} {step : Int} {i j : Nat} (hi : conf.Current step i)
    (hj : conf.Current step j) : i = j :=
  le_antisymm (hj.last i hi.bound hi.reached) (hi.last j hj.bound hj.reached)

theorem pass_above {conf : FixedStepProto α} {step : Int} {i : Nat} (h : i < conf.step.length)
    (above : ¬ conf.step.get ⟨i, h⟩ < step) (ret : α) : conf.pass step ret i = .ok ret := by
  have threshold : conf.step[i]? = some (conf.step.get ⟨i, h⟩) := List.getElem?_eq_getElem h
  simp only [pass, threshold, if_neg above]

/-- A step that has reached the first threshold has a current entry. -/
theorem exists_current {conf : FixedStepProto α} {step : Int} (h : 0 < conf.step.length)
    (begun : conf.step.get ⟨0, h⟩ ≤ step) : ∃ i, conf.Current step i := by
  let reached : Nat → Prop := fun i => ∃ h : i < conf.step.length, conf.step.get ⟨i, h⟩ ≤ step
  have first : reached 0 := ⟨h, begun⟩
  have bound : ∀ i, reached i → i ≤ conf.step.length := fun i hi => hi.1.le
  classical
  obtain ⟨lt, le⟩ : reached (Nat.findGreatest reached conf.step.length) :=
    Nat.findGreatest_spec (bound 0 first) first
  exact ⟨Nat.findGreatest reached conf.step.length, lt, le, fun j hj hle =>
    Nat.le_findGreatest (bound j ⟨hj, hle⟩) ⟨hj, hle⟩⟩

end Schedule

variable {α : Type} [Zero α]

/-- The branch `kFixedStep`. -/
def rate (conf : FixedStepProto α) (step : Int) : Run α :=
  (List.range conf.step.length).foldlM (conf.pass step) 0

/-- The rate before entry `i` of the schedule: no rate is set before the first. -/
def before (conf : FixedStepProto α) : Nat → α
  | 0 => 0
  | i + 1 => conf.stepLr.getD i 0

theorem pass_below {conf : FixedStepProto α} {step : Int} {i : Nat} (h : i < conf.step.length)
    (below : conf.step.get ⟨i, h⟩ < step) (long : i < conf.stepLr.length) (ret : α) :
    conf.pass step ret i = .ok (conf.before (i + 1)) := by
  have threshold : conf.step[i]? = some (conf.step.get ⟨i, h⟩) := List.getElem?_eq_getElem h
  have lr : conf.stepLr[i]? = some (conf.before (i + 1)) := by
    rw [before, List.getD_eq_getElem?_getD, List.getElem?_eq_getElem long, Option.getD_some]
  simp only [pass, threshold, if_pos below, lr]

/-- The loop when the first `n` thresholds, and no other, are below the step. -/
theorem rate_eq {conf : FixedStepProto α} (wf : conf.WellFormed) {step : Int} {n : Nat}
    (below : ∀ i (h : i < conf.step.length), conf.step.get ⟨i, h⟩ < step ↔ i < n) (le : n ≤ conf.step.length) :
    conf.rate step = .ok (conf.before n) := by
  -- after `i` passes the rate is that of the thresholds passed among the first `i`
  have loop := Run.foldlM_range (f := conf.pass step) (fun i => conf.before (min i n)) (k := conf.step.length) ?_
  · simpa only [rate, before, Nat.zero_min, Nat.min_eq_right le] using loop
  · intro i h
    by_cases passed : i < n
    · have long : i < conf.stepLr.length := by rw [wf.lengths]; exact h
      rw [pass_below h ((below i h).mpr passed) long, Nat.min_eq_left (by omega : i + 1 ≤ n)]
    · rw [pass_above h fun lt => passed ((below i h).mp lt)]
      congr 2
      omega

/-- Strictly between two thresholds the documented rate is used. -/
theorem rate_inside {conf : FixedStepProto α} (wf : conf.WellFormed) {step : Int} {i : Nat} (current : conf.Current step i)
    (inside : conf.step.get ⟨i, current.bound⟩ < step) : conf.rate step = .ok (conf.before (i + 1)) := by
  apply rate_eq wf
  · intro j h
    constructor
    · intro lt
      exact Nat.lt_succ_of_le (current.last j h lt.le)
    · intro le
      rcases Nat.lt_or_eq_of_le (Nat.le_of_lt_succ le) with lt | rfl
      · exact lt_trans (List.pairwise_iff_get.mp wf.increasing ⟨j, h⟩ ⟨i, current.bound⟩ lt) inside
      · exact inside
  · exact current.bound

/-- At a threshold the rate is still that of the entry before. -/
theorem rate_at {conf : FixedStepProto α} (wf : conf.WellFormed) {step : Int} {i : Nat} (h : i < conf.step.length)
    (threshold : conf.step.get ⟨i, h⟩ = step) : conf.rate step = .ok (conf.before i) := by
  apply rate_eq wf
  · intro j hj
    rw [← threshold]
    constructor
    · intro lt
      by_contra ge
      rcases Nat.lt_or_eq_of_le (Nat.le_of_not_lt ge) with gt | rfl
      · exact lt_asymm lt (List.pairwise_iff_get.mp wf.increasing ⟨i, h⟩ ⟨j, hj⟩ gt)
      · exact lt_irrefl _ lt
    · intro lt
      exact List.pairwise_iff_get.mp wf.increasing ⟨j, hj⟩ ⟨i, h⟩ lt
  · exact h.le

end FixedStepProto

namespace UpdaterProto

variable {α : Type} [Zero α] [One α] [Add α] [Sub α] [Mul α] [Div α] [Neg α] [IntCast α] [DecidableEq α]

/-- `Updater::GetLearningRate`. -/
def getLearningRate (pow : α → α → α) (proto : UpdaterProto α) (step : Int) : Run α :=
  let base := proto.baseLr
  match proto.lrChange with
  | .kFixed => .ok base
  | .kLinear =>
    let freq := proto.linearConf.changeFreq
    let r := (step : α) * 1 / (freq : α)
    .ok ((1 - r) * base + r * proto.linearConf.finalLr)
  | .kExponential =>
    let freq := proto.exponentialConf.changeFreq
    .ok (base / pow ((2 : Int) : α) ((step : α) * 1 / (freq : α)))
  | .kInverseT =>
    if base = ((2 : Int) : α) * proto.inversetConf.finalLr then
      .ok (base / (1 + (step : α) * 1 / proto.inversetConf.finalLr))
    else .error .finalLr
  | .kInverse => .ok (base * pow (1 + proto.inverseConf.gamma * (step : α)) (-proto.inverseConf.pow))
  | .kStep =>
    let freq := proto.stepConf.changeFreq
    if freq = 0 then .error .divZero
    -- a quotient of `int`s, not of floating point numbers
    else .ok (base * pow proto.stepConf.gamma ((step.tdiv freq : Int) : α))
  | .kFixedStep => proto.fixedstepConf.rate step

/-- The documented rule of a fixed-step schedule. -/
def FollowsSchedule (pow : α → α → α) (proto : UpdaterProto α) (step : Int) : Prop :=
  ∃ i lr, proto.fixedstepConf.Current step i ∧ proto.fixedstepConf.stepLr[i]? = some lr ∧
    proto.getLearningRate pow step = .ok lr

/-- `GetLearningRate` follows a fixed-step schedule exactly where the step is no
change point, or is one that does not change the rate. -/
theorem followsSchedule_iff (pow : α → α → α) (proto : UpdaterProto α) (method : proto.lrChange = .kFixedStep)
    (wf : proto.fixedstepConf.WellFormed) (step : Int) (some_step : 0 < proto.fixedstepConf.step.length)
    (begun : proto.fixedstepConf.step.get ⟨0, some_step⟩ ≤ step) :
    proto.FollowsSchedule pow step ↔
      ∀ i, proto.fixedstepConf.step[i]? = some step →
        proto.fixedstepConf.stepLr[i]? = some (proto.fixedstepConf.before i) := by
  obtain ⟨i, current⟩ := FixedStepProto.exists_current some_step begun
  have long : i < proto.fixedstepConf.stepLr.length := by rw [wf.lengths]; exact current.bound
  have lr : proto.fixedstepConf.stepLr[i]? = some (proto.fixedstepConf.before (i + 1)) := by
    rw [FixedStepProto.before, List.getD_eq_getElem?_getD, List.getElem?_eq_getElem long, Option.getD_some]
  have rate : proto.getLearningRate pow step = proto.fixedstepConf.rate step := by
    simp only [getLearningRate, method]
  -- the property says that the rate is that of entry `i`
  have property : proto.FollowsSchedule pow step ↔
      proto.fixedstepConf.rate step = .ok (proto.fixedstepConf.before (i + 1)) := by
    rw [FollowsSchedule, rate]
    constructor
    · rintro ⟨j, lr', current', found, run⟩
      rw [current'.unique current, lr] at found
      rw [run, Option.some.inj found]
    · intro run
      exact ⟨i, _, current, lr, run⟩
  rw [property]
  have threshold_i : proto.fixedstepConf.step[i]? = some (proto.fixedstepConf.step.get ⟨i, current.bound⟩) :=
    List.getElem?_eq_getElem current.bound
  rcases lt_or_eq_of_le current.reached with inside | at_i
  · -- no change point: a threshold that the step has reached comes no later than entry `i`
    have none_at : ∀ j : Nat, proto.fixedstepConf.step[j]? ≠ some step := by
      intro j found
      obtain ⟨hj, at_j⟩ := List.getElem?_eq_some_iff.mp found
      rcases Nat.lt_or_eq_of_le (current.last j hj (le_of_eq at_j)) with lt | rfl
      · have earlier := List.pairwise_iff_get.mp wf.increasing ⟨j, hj⟩ ⟨i, current.bound⟩ lt
        exact lt_asymm inside (at_j ▸ earlier)
      · exact absurd at_j inside.ne
    constructor
    · intro _ j found
      exact absurd found (none_at j)
    · intro _
      exact FixedStepProto.rate_inside wf current inside
  · rw [FixedStepProto.rate_at wf current.bound at_i]
    rw [at_i] at threshold_i
    constructor
    · intro same j found
      rw [wf.index_unique found threshold_i, lr, Except.ok.inj same]
    · intro unchanged
      have kept := (unchanged i threshold_i).symm.trans lr
      rw [Option.some.inj kept]

/-- The schedule of the example configuration `cifar10`. -/
def cifar10 : UpdaterProto ℚ :=
  { lrChange := .kFixedStep, baseLr := 0, fixedstepConf := ⟨[0, 60000, 65000], [1 / 1000, 1 / 10000, 1 / 100000]⟩,
    stepConf := ⟨1, 0⟩, linearConf := ⟨0, 0⟩, exponentialConf := ⟨0⟩, inverseConf := ⟨1, 0⟩, inversetConf := ⟨0⟩ }

theorem cifar10_wellFormed : cifar10.fixedstepConf.WellFormed := ⟨by decide, by decide⟩

/-- Step 60000 of `cifar10` still has the rate of the steps before. -/
theorem cifar10_not_followsSchedule :
    cifar10.fixedstepConf.WellFormed ∧ cifar10.fixedstepConf.Current 60000 1 ∧
      cifar10.getLearningRate (fun a b => a ^ b.num) 60000 = .ok (1 / 1000) ∧
      ¬ cifar10.FollowsSchedule (fun a b => a ^ b.num) 60000 := by
  have current : cifar10.fixedstepConf.Current 60000 1 := ⟨by decide, by decide, by decide⟩
  have rate : cifar10.getLearningRate (fun a b => a ^ b.num) 60000 = .ok (1 / 1000) := by decide +kernel
  refine ⟨cifar10_wellFormed, current, rate, ?_⟩
  rintro ⟨i, lr, current', found, run⟩
  rw [current'.unique current] at found
  have same : lr = 1 / 1000 := by simpa [rate] using run.symm
  rw [same] at found
  exact absurd found (by decide +kernel)

/-- Between two change points of `cifar10` the schedule is followed. -/
theorem cifar10_followsSchedule : cifar10.FollowsSchedule (fun a b => a ^ b.num) 61000 := by
  apply (followsSchedule_iff _ cifar10 rfl cifar10_wellFormed 61000 (by decide) (by decide)).mpr
  intro i found
  have mem := List.mem_of_getElem? found
  exact absurd mem (by decide)

end UpdaterProto
end Singa
