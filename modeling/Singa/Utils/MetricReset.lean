import Mathlib.Data.List.DropRight
import Singa.Utils.Abort
import Singa.Utils.Metric

/-!
# Metrics between two resets

`Add` counts and sums the values of a name. The loop of `Reset` is written for
`auto e`, a copy of each entry, and leaves the entries as they are: what a metric
reports goes back to its construction.
-/

namespace Singa
set_option autoImplicit false

namespace MetricEntry

variable {α : Type}

/-- `e.first += 1; e.second += value`. -/
def add [Add α] (e : MetricEntry α) (value : α) : MetricEntry α :=
  { e with count := e.count + 1, sum := e.sum + value }

end MetricEntry

namespace Metric

variable {α : Type}

/-- `Metric()`. -/
def new : Metric α := ⟨[], List.nodup_nil⟩

/-- `entry_.find(name)`. -/
def find (m : Metric α) (name : List Char) : Option (MetricEntry α) := m.entries.find? fun e => e.name = name

theorem find_none {m : Metric α} {name : List Char} (h : m.find name = none) :
    name ∉ m.entries.map MetricEntry.name := by
  intro mem
  obtain ⟨e, he, same⟩ := List.mem_map.mp mem
  have away := List.find?_eq_none.mp h e he
  exact away (decide_eq_true same)

/-- `entry_[name] = std::make_pair(1, value)` for a new name. It is put at the end; where `entry_` has it is
not specified. -/
def push (m : Metric α) (name : List Char) (value : α) (new : name ∉ m.entries.map MetricEntry.name) : Metric α where
  entries := m.entries ++ [⟨name, 1, value⟩]
  nodup := by
    rw [List.map_append]
    refine List.nodup_append.mpr ⟨m.nodup, List.nodup_singleton _, fun a ha b hb same => new ?_⟩
    obtain rfl : b = name := List.mem_singleton.mp hb
    exact same ▸ ha

/-- `e.first += 1; e.second += value` for the entry of the name. -/
def accumulate [Add α] (m : Metric α) (name : List Char) (value : α) : Metric α where
  entries := m.entries.map fun e => if e.name = name then e.add value else e
  nodup := by
    have names : MetricEntry.name ∘ (fun e => if e.name = name then e.add value else e) = MetricEntry.name := by
      funext e
      rw [Function.comp]
      split <;> rfl
    rw [List.map_map, names]
    exact m.nodup

/-- `Metric::Add`. -/
def add [Add α] (m : Metric α) (name : List Char) (value : α) : Run (Metric α) :=
  match h : m.find name with
  | none => .ok (m.push name value (find_none h))
  | some e => if e.count + 1 < 2 ^ 31 then .ok (m.accumulate name value) else .error .overflow

/-- `Metric::Reset`: `e` is a copy of the entry. -/
def reset [Zero α] (m : Metric α) : Metric α :=
  let _copies := m.entries.map fun e => { e with count := 0, sum := 0 }
  m

/-- A call that changes a metric. -/
inductive Call (α : Type) where
  | add (name : List Char) (value : α)
  | reset
  deriving DecidableEq

namespace Call

def isAdd : Call α → Bool
  | add _ _ => true
  | reset => false

/-- The value that is added under `name`. -/
def value? (name : List Char) : Call α → Option α
  | add other value => if other = name then some value else none
  | reset => none

end Call

/-- The pair that is held for a name, `(0, 0)` if there is none. -/
def held [Zero α] (m : Metric α) (name : List Char) : Int × α :=
  match m.find name with
  | none => (0, 0)
  | some e => (e.count, e.sum)

/-- The values added under a name. -/
def added (name : List Char) (calls : List (Call α)) : List α := calls.filterMap (Call.value? name)

/-- The calls behind the last `Reset`. -/
def sinceReset (calls : List (Call α)) : List (Call α) := calls.rtakeWhile Call.isAdd

variable {m m' : Metric α} {name other : List Char} {value : α}

theorem find_name {e : MetricEntry α} (here : m.find name = some e) : e.name = name := by
  simpa using List.find?_some here

theorem find_push (new : name ∉ m.entries.map MetricEntry.name) :
    (m.push name value new).find other = if other = name then some ⟨name, 1, value⟩ else m.find other := by
  unfold find push
  by_cases same : other = name
  · subst same
    have away : m.entries.find? (fun e => e.name = other) = none := by
      refine List.find?_eq_none.mpr fun e he here => new ?_
      exact List.mem_map.mpr ⟨e, he, of_decide_eq_true here⟩
    simp [List.find?_append, away]
  · simp [List.find?_append, same, Ne.symm same]

theorem find_accumulate [Add α] : (m.accumulate name value).find other =
    if other = name then (m.find name).map (·.add value) else m.find other := by
  have names : ((fun e : MetricEntry α => decide (e.name = other)) ∘ fun e => if e.name = name then e.add value else e) =
      fun e => decide (e.name = other) := by
    funext e
    rw [Function.comp]
    split <;> rfl
  rw [find, accumulate, List.find?_map, names, ← find]
  cases here : m.find other with
  | none =>
    split
    · rename_i same
      rw [← same, here]
      rfl
    · rfl
  | some e =>
    have named := find_name here
    split
    · rename_i same
      subst same
      rw [here]
      simp [named]
    · rename_i different
      have away : ¬ e.name = name := fun h => different (named.symm.trans h)
      simp [away]

section

variable [AddMonoid α]

/-- **`Add`** counts the value and adds it to the sum of its name, as long as the count stays an `int`. -/
theorem add_ok : m.add name value = .ok m' → (m.held name).1 + 1 < 2 ^ 31 ∧ ∀ other, m'.held other =
    if other = name then ((m.held name).1 + 1, (m.held name).2 + value) else m.held other := by
  intro h
  unfold add at h
  split at h
  · rename_i none
    cases h
    simp only [held, find_push, none]
    refine ⟨by decide, fun other => ?_⟩
    by_cases same : other = name <;> simp [same]
  · rename_i e here
    split at h
    · rename_i room
      cases h
      simp only [held, find_accumulate, here]
      refine ⟨room, fun other => ?_⟩
      by_cases same : other = name <;> simp [same, MetricEntry.add]
    · cases h

theorem add_total (room : (m.held name).1 + 1 < 2 ^ 31) (value : α) : ∃ m', m.add name value = .ok m' := by
  unfold add
  split
  · exact ⟨_, rfl⟩
  · rename_i e here
    rw [held, here] at room
    exact ⟨_, if_pos room⟩

def step (m : Metric α) : Call α → Run (Metric α)
  | .add name value => m.add name value
  | .reset => .ok m.reset

/-- The calls `calls` on a new metric. -/
def run (calls : List (Call α)) : Run (Metric α) := calls.foldlM step new

end

/-! ## Histories -/

section Histories

variable {calls : List (Call α)}

theorem added_append (before after : List (Call α)) : added name (before ++ after) = added name before ++ added name after :=
  List.filterMap_append

theorem added_add : added other (calls ++ [.add name value]) =
    added other calls ++ if name = other then [value] else [] := by
  by_cases same : name = other <;> simp [added, Call.value?, same]

theorem added_reset_cons (after : List (Call α)) : added name (.reset :: after) = added name after := rfl

theorem added_reset : added other (calls ++ [.reset]) = added other calls := by
  simp [added, Call.value?]

variable [AddMonoid α]

/-- The counts and sums of all values ever added. -/
def Totals (calls : List (Call α)) (m : Metric α) : Prop :=
  ∀ name, m.held name = (((added name calls).length : Int), (added name calls).sum)

theorem Totals.new : Totals [] (new : Metric α) := fun _ => rfl

theorem Totals.step {call : Call α} (totals : Totals calls m) (pass : m.step call = .ok m') :
    Totals (calls ++ [call]) m' := by
  intro other
  cases call with
  | reset =>
    cases pass
    rw [added_reset]
    exact totals other
  | add name value =>
    rw [(add_ok pass).2 other, added_add, totals name, totals other]
    by_cases same : other = name
    · subst same
      simp
    · simp [same, Ne.symm same]

/-- A run comes to an end as long as no name is added too often for an `int`, and holds all values. -/
theorem run_ok_iff : (∃ m, run calls = .ok m) ↔ ∀ name, (added name calls).length < 2 ^ 31 := by
  constructor
  · rintro ⟨m, run⟩ name
    refine (Run.foldlM_inv (fun done m => Totals done m ∧ (added name done).length < 2 ^ 31)
      (fun done call m m' inv pass => ⟨inv.1.step pass, ?_⟩) ⟨Totals.new, by simp [added]⟩ run).2
    cases call with
    | reset =>
      rw [added_reset]
      exact inv.2
    | add other value =>
      have room := (add_ok pass).1
      rw [inv.1 other] at room
      rw [added_add]
      by_cases same : other = name
      · subst same
        simp only [if_true, List.length_append, List.length_singleton]
        omega
      · simpa [same] using inv.2
  · intro small
    have total := Run.foldlM_prefix (f := step) (l := calls) Totals (fun done call rest m whole totals => ?_) Totals.new
    · obtain ⟨m, run, -⟩ := total
      exact ⟨m, run⟩
    suffices pass : ∃ m', m.step call = .ok m' by
      obtain ⟨m', pass⟩ := pass
      exact ⟨m', pass, totals.step pass⟩
    cases call with
    | reset => exact ⟨_, rfl⟩
    | add name value =>
      refine add_total ?_ value
      have few := small name
      have here : added name (.add name value :: rest) = value :: added name rest := by
        simp [added, Call.value?]
      rw [whole, added_append, here, List.length_append, List.length_cons] at few
      rw [totals name]
      simp only
      omega

theorem run_totals (run : run calls = .ok m) : Totals calls m :=
  Run.foldlM_inv Totals (fun _ _ _ _ totals pass => totals.step pass) Totals.new run

end Histories

/-! ## What is reported -/

section Reports

variable {calls before after : List (Call α)}

/-- The calls behind the last `Reset` are behind every `Reset`. -/
theorem sinceReset_suffix (before after : List (Call α)) : sinceReset (before ++ .reset :: after) <:+ after := by
  induction after using List.reverseRecOn with
  | nil =>
    rw [sinceReset, List.rtakeWhile_concat_neg _ _ _ (by simp [Call.isAdd])]
  | append_singleton after call ih =>
    have shift : before ++ .reset :: (after ++ [call]) = (before ++ .reset :: after) ++ [call] := by simp
    rw [sinceReset, shift]
    by_cases adds : Call.isAdd call
    · rw [List.rtakeWhile_concat_pos _ _ _ adds]
      obtain ⟨front, whole⟩ := ih
      rw [sinceReset] at whole
      exact ⟨front, by rw [← List.append_assoc, whole]⟩
    · rw [List.rtakeWhile_concat_neg _ _ _ adds]
      exact List.nil_suffix

/-- They are all calls, or those behind a `Reset`. -/
theorem sinceReset_cases (calls : List (Call α)) :
    sinceReset calls = calls ∨ ∃ before, calls = before ++ .reset :: sinceReset calls := by
  have parts : calls.rdropWhile Call.isAdd ++ sinceReset calls = calls := List.rdropWhile_append_rtakeWhile
  by_cases none : calls.rdropWhile Call.isAdd = []
  · rw [none, List.nil_append] at parts
    exact .inl parts
  · have last := List.rdropWhile_last_not Call.isAdd calls none
    have reset : (calls.rdropWhile Call.isAdd).getLast none = .reset := by
      cases here : (calls.rdropWhile Call.isAdd).getLast none with
      | add name value => exact absurd (by rw [here]; rfl) last
      | reset => rfl
    refine .inr ⟨(calls.rdropWhile Call.isAdd).dropLast, ?_⟩
    have whole := List.dropLast_append_getLast none
    rw [reset] at whole
    calc calls = calls.rdropWhile Call.isAdd ++ sinceReset calls := parts.symm
      _ = ((calls.rdropWhile Call.isAdd).dropLast ++ [.reset]) ++ sinceReset calls := by rw [whole]
      _ = _ := by simp

/-- No value was added before a `Reset`. -/
def NoneLost (calls : List (Call α)) : Prop :=
  ∀ before after, calls = before ++ .reset :: after → ∀ call ∈ before, call = .reset

theorem NoneLost.added (kept : NoneLost calls) (name : List Char) : added name calls = added name (sinceReset calls) := by
  rcases sinceReset_cases calls with all | ⟨before, split⟩
  · rw [all]
  · have nothing : Metric.added name before = [] := by
      refine List.filterMap_eq_nil_iff.mpr fun call mem => ?_
      rw [kept before _ split call mem]
      rfl
    conv_lhs => rw [split]
    rw [added_append, nothing, List.nil_append, added_reset_cons]

theorem noneLost_of_lengths (same : ∀ name, (added name calls).length = (added name (sinceReset calls)).length) :
    NoneLost calls := by
  intro before after split call mem
  cases call with
  | reset => rfl
  | add name value =>
    exfalso
    have few := same name
    have within := ((sinceReset_suffix before after).sublist.filterMap (Call.value? name)).length_le
    have lost : value ∈ added name before := by
      refine List.mem_filterMap.mpr ⟨_, mem, ?_⟩
      simp [Call.value?]
    have some := List.length_pos_of_mem lost
    rw [← added, ← added] at within
    rw [split, added_append, added_reset_cons, List.length_append] at few
    omega

end Reports

/-- What the metric holds and prints is what was added since the last `Reset`. -/
structure Reports (value : ℚ → FloatValue) (calls : List (Call ℚ)) (m : Metric ℚ) : Prop where
  held : ∀ name, m.held name =
    (((added name (sinceReset calls)).length : Int), (added name (sinceReset calls)).sum)
  shown : ∀ name, added name (sinceReset calls) ≠ [] → ∃ e ∈ m.entries, e.name = name ∧ e.average value =
    (value ((added name (sinceReset calls)).sum / (added name (sinceReset calls)).length)).toChars

/-- **A metric reports what was added since the last `Reset` exactly when nothing was added before it**, and
every count is an `int`. -/
theorem reports_iff (value : ℚ → FloatValue) (calls : List (Call ℚ)) :
    (∃ m, run calls = .ok m ∧ Reports value calls m) ↔
      NoneLost calls ∧ ∀ name, (added name calls).length < 2 ^ 31 := by
  constructor
  · rintro ⟨m, ran, reports⟩
    refine ⟨noneLost_of_lengths fun name => ?_, run_ok_iff.mp ⟨m, ran⟩⟩
    have count : ((added name calls).length : Int) = (added name (sinceReset calls)).length :=
      congrArg Prod.fst ((run_totals ran name).symm.trans (reports.held name))
    exact_mod_cast count
  · rintro ⟨kept, small⟩
    obtain ⟨m, ran⟩ := run_ok_iff.mpr small
    have held (name : List Char) : m.held name =
        (((added name (sinceReset calls)).length : Int), (added name (sinceReset calls)).sum) := by
      rw [run_totals ran name, kept.added]
    refine ⟨m, ran, held, fun name some => ?_⟩
    have pair := held name
    unfold Metric.held at pair
    split at pair
    · have count : (0 : Int) = (added name (sinceReset calls)).length := congrArg Prod.fst pair
      exact absurd (List.length_eq_zero_iff.mp (by omega)) some
    · rename_i e here
      obtain ⟨count, sum⟩ := Prod.mk.inj pair
      refine ⟨e, List.mem_of_find?_eq_some here, find_name here, ?_⟩
      rw [MetricEntry.average, count, sum]
      norm_cast

/-- A loss of 2, a reset and a loss of 4: the metric holds two values and the sum 6. -/
theorem loss_not_reported : ¬ ∃ value m, run [.add ['l'] 2, .reset, .add ['l'] 4] = .ok m ∧
    Reports value [.add ['l'] 2, .reset, .add ['l'] 4] m := by
  rintro ⟨value, m, ran, reports⟩
  have held := (run_totals ran ['l']).symm.trans (reports.held ['l'])
  have counts := congrArg Prod.fst held
  exact absurd counts (by decide)

end Metric
end Singa
