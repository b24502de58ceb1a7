import Singa.Base.Decimal
import Singa.Base.Text
import Singa.Utils.Abort

/-!
# `trainer/trainer.cc`: looking for the last checkpoint

`Trainer::Resume` goes over the names in the checkpoint folder and keeps pointers
to those of the largest step. A name is a member of `file`, which lives in one
pass of the loop only. The test for irregular names lets names without `step`
through that have a dot as their first or second character; for those `strstr`
has found nothing.
-/

namespace Singa
set_option autoImplicit false

open Decimal

/-- The fields of `ModelProto` that `Resume` sets. -/
structure ResumeConf where
  step : Int
  checkpoint : List (List Char)
  deriving DecidableEq

namespace Resume

def stepChars : List Char := ['s', 't', 'e', 'p']

/-- The number behind `step`; what `atoi` returns for a number that is no `int` is undefined. -/
def stepOf (digits : List Char) : Run Int :=
  if -2 ^ 31 ≤ atoi digits ∧ atoi digits < 2 ^ 31 then .ok (atoi digits) else .error .overflow

/-- The variables of the loop. A pointer to a name is the number of the pass that has the struct. -/
structure Search where
  latestStep : Int
  ckFiles : List Nat
  deriving DecidableEq

/-- The end of a pass: the step of the file is compared with the largest one. -/
def compare (s : Search) (pass : Nat) (step : Int) : Search :=
  if step = s.latestStep then { s with ckFiles := s.ckFiles ++ [pass] }
  else if s.latestStep < step then ⟨step, [pass]⟩
  else s

/-- One pass of the loop over the directory. -/
def searchPass (s : Search) (file : List Char × Nat) : Run Search :=
  match Text.cut stepChars file.1 with
  | none =>
    if file.1[0]? ≠ some '.' ∧ file.1[1]? ≠ some '.' then .ok s
    -- `LOG(ERROR) << ch` and `atoi(ch + 4)`
    else .error .nullPointer
  | some (_, digits) => do
    let step ← stepOf digits
    .ok (compare s file.2 step)

/-- The name behind a pointer, while the struct of one pass lives. -/
def deref (live : Option (Nat × List Char)) (ckFile : Nat) : Run (List Char) :=
  match live with
  | none => .error .dangling
  | some (pass, name) => if pass = ckFile then .ok name else .error .dangling

def path (folder name : List Char) : List Char := folder ++ '/' :: name

/-- `Trainer::Resume` in a folder with the entries `names`. Behind the loop no `file` is alive. -/
def resume (folder : List Char) (names : List (List Char)) (conf : ResumeConf) : Run ResumeConf := do
  let s ← names.zipIdx.foldlM searchPass ⟨0, []⟩
  if 0 < s.latestStep then do
    let files ← s.ckFiles.mapM (deref none)
    .ok ⟨s.latestStep, conf.checkpoint ++ files.map (path folder)⟩
  else .ok conf

/-! ## Checkpoints in a folder -/

/-- `step%d-worker%d.bin`, as `Worker::Checkpoint` names its file. -/
def checkpointName (step worker : Int) : List Char :=
  stepChars ++ (print step ++ ("-worker".toList ++ print worker ++ ".bin".toList))

/-- There is a checkpoint of that step. -/
def Saved (names : List (List Char)) (step : Int) : Prop := ∃ worker, checkpointName step worker ∈ names

/-- The config has the last checkpoint of the folder, or is as it was. -/
structure Resumed (folder : List Char) (names : List (List Char)) (conf conf' : ResumeConf) : Prop where
  latest : ∀ step, 0 < step → Saved names step → (∀ other, Saved names other → other ≤ step) →
    conf'.step = step ∧ conf'.checkpoint.Nodup ∧
      ∀ file, file ∈ conf'.checkpoint ↔ ∃ worker, checkpointName step worker ∈ names ∧
        file = path folder (checkpointName step worker)
  none : (∀ step, 0 < step → ¬ Saved names step) → conf' = conf

/-- An entry that `Resume` passes over: it has `step` and no positive number behind it, or no `step` and no dot
as its first or second character. -/
def Idle (name : List Char) : Prop :=
  match Text.cut stepChars name with
  | none => name[0]? ≠ some '.' ∧ name[1]? ≠ some '.'
  | some (_, digits) => ∃ step ≤ 0, stepOf digits = .ok step

/-! ## The loop -/

/-- What the loop keeps: files are listed for a positive step, and without one all names were idle. -/
structure Searched (done : List (List Char × Nat)) (s : Search) : Prop where
  low : 0 ≤ s.latestStep
  listed : 0 < s.latestStep → s.ckFiles ≠ []
  idle : s.latestStep = 0 → ∀ file ∈ done, Idle file.1

theorem Searched.pass {done : List (List Char × Nat)} {file : List Char × Nat} {s s' : Search} (inv : Searched done s)
    (pass : searchPass s file = .ok s') : Searched (done ++ [file]) s' := by
  have idle (zero : s.latestStep = 0) (here : Idle file.1) : ∀ f ∈ done ++ [file], Idle f.1 := by
    intro f mem
    rcases List.mem_append.mp mem with old | new
    · exact inv.idle zero f old
    · rwa [List.mem_singleton.mp new]
  unfold searchPass at pass
  split at pass
  · rename_i away
    split at pass
    · rename_i regular
      cases pass
      exact ⟨inv.low, inv.listed, fun zero => idle zero (by rw [Idle, away]; exact regular)⟩
    · cases pass
  · rename_i digits found
    obtain ⟨step, number, pass⟩ := Run.do_ok.mp pass
    cases pass
    have low := inv.low
    have here (negative : step ≤ 0) : Idle file.1 := by
      rw [Idle, found]
      exact ⟨step, negative, number⟩
    unfold compare
    split
    · exact ⟨low, fun _ => by simp, fun zero => idle zero (here (by simp only at zero; omega))⟩
    · split
      · exact ⟨by simp only; omega, fun _ => by simp, fun zero => by simp only at zero; omega⟩
      · exact ⟨low, inv.listed, fun zero => idle zero (here (by omega))⟩

/-- A name that is idle changes at most the list, at step 0. -/
theorem searchPass_idle {file : List Char × Nat} {s : Search} (zero : s.latestStep = 0) (idle : Idle file.1) :
    ∃ s', searchPass s file = .ok s' ∧ s'.latestStep = 0 := by
  unfold Idle at idle
  unfold searchPass
  split at idle
  · exact ⟨s, if_pos idle, zero⟩
  · obtain ⟨step, negative, number⟩ := idle
    refine ⟨_, Run.do_ok.mpr ⟨step, number, rfl⟩, ?_⟩
    unfold compare
    split
    · exact zero
    · split
      · omega
      · exact zero

variable {folder : List Char} {names : List (List Char)} {conf conf' : ResumeConf}

theorem mem_zipIdx_name {file : List Char × Nat} (mem : file ∈ names.zipIdx) : file.1 ∈ names :=
  (List.mem_zipIdx' mem).2 ▸ List.getElem_mem _

/-- **`Resume` ends without undefined behaviour exactly where all names are idle**, and leaves the config as it is. -/
theorem resume_ok_iff : resume folder names conf = .ok conf' ↔ conf' = conf ∧ ∀ name ∈ names, Idle name := by
  constructor
  · intro h
    obtain ⟨s, loop, h⟩ := Run.do_ok.mp h
    have inv : Searched names.zipIdx s := Run.foldlM_inv Searched (fun _ _ _ _ inv => inv.pass)
      ⟨le_rfl, fun lt => absurd lt (lt_irrefl _), by simp⟩ loop
    by_cases latest : 0 < s.latestStep
    · rw [if_pos latest] at h
      obtain ⟨files, gone, -⟩ := Run.do_ok.mp h
      obtain ⟨p, ps, list⟩ := List.exists_cons_of_ne_nil (inv.listed latest)
      rw [list, List.mapM_cons] at gone
      obtain ⟨name, read, -⟩ := Run.do_ok.mp gone
      cases read
    · rw [if_neg latest] at h
      refine ⟨(Except.ok.inj h).symm, fun name mem => ?_⟩
      obtain ⟨i, lt, here⟩ := List.getElem_of_mem mem
      have low := inv.low
      exact here ▸ inv.idle (by omega) (names[i], i) (by simp [List.mem_zipIdx_iff_getElem?])
  · rintro ⟨rfl, idle⟩
    obtain ⟨s, loop, zero⟩ := Run.foldlM_prefix (f := searchPass) (l := names.zipIdx)
      (fun _ s => s.latestStep = 0) (fun done file rest s whole zero => by
        refine searchPass_idle zero (idle _ (mem_zipIdx_name ?_))
        rw [whole]
        simp) (s := ⟨0, []⟩) rfl
    refine Run.do_ok.mpr ⟨s, loop, if_neg ?_⟩
    omega

/-- A checkpoint of a positive step is not idle. -/
theorem not_idle {step worker : Int} (positive : 0 < step) : ¬ Idle (checkpointName step worker) := by
  have found : Text.cut stepChars (checkpointName step worker) =
      some ([], print step ++ ("-worker".toList ++ print worker ++ ".bin".toList)) :=
    Text.cut_self (by decide) _
  have number : atoi (print step ++ ("-worker".toList ++ print worker ++ ".bin".toList)) = step := by
    refine atoi_print step _ fun c first => ?_
    cases first
    decide
  rw [Idle, found]
  rintro ⟨other, negative, same⟩
  simp only [stepOf, number] at same
  split at same
  · cases same
    omega
  · cases same

/-- **The last checkpoint is resumed exactly where there is none**, and no entry leads `Resume` astray. -/
theorem resumed_iff (folder : List Char) (names : List (List Char)) (conf : ResumeConf) :
    (∃ conf', resume folder names conf = .ok conf' ∧ Resumed folder names conf conf') ↔ ∀ name ∈ names, Idle name := by
  constructor
  · rintro ⟨conf', run, -⟩
    exact (resume_ok_iff.mp run).2
  · intro idle
    refine ⟨conf, resume_ok_iff.mpr ⟨rfl, idle⟩, fun step positive saved => ?_, fun _ => rfl⟩
    obtain ⟨worker, mem⟩ := saved
    exact absurd (idle _ mem) (not_idle positive)

/-- A folder with one checkpoint: the entry `.` has no step. -/
theorem oneCheckpoint_not_resumed : ¬ ∃ conf', resume ['c'] [['.'], ['.', '.'], checkpointName 10 0] ⟨0, []⟩ = .ok conf' ∧
    Resumed ['c'] [['.'], ['.', '.'], checkpointName 10 0] ⟨0, []⟩ conf' := by
  rintro ⟨conf', run, -⟩
  have stop : resume ['c'] [['.'], ['.', '.'], checkpointName 10 0] ⟨0, []⟩ = .error .nullPointer := by decide +kernel
  rw [stop] at run
  cases run

/-- Without that entry the name of the checkpoint is gone when it is read. -/
example : resume ['c'] [checkpointName 10 0] ⟨0, []⟩ = .error .dangling := by decide +kernel

end Resume
end Singa
