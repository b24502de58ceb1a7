import Singa.Base.Text
import Singa.Utils.Abort
import Singa.Utils.Metric

/-!
# `web/singaserver.py`: charts from the log

`Trainer::DisplayMetric` prints a phase, a step and the averages of a metric in
one line; the web server splits the line at `step-`, at commas and at colons.
Strings of the server are lists of characters, and `splitOn` splits at one
character; `strip()` drops the white space of C.
-/

namespace Singa
set_option autoImplicit false

open Text
open Decimal (isSpace)

/-- What `Trainer::DisplayMetric` prints of a message; only metrics of group 0 are displayed. -/
def displayMetric {α : Type} [Div α] [IntCast α] (value : α → FloatValue) (srcGrp step : Int) (phase : List Char)
    (metric : Metric α) : Option (List Char) :=
  if srcGrp = 0 then
    some (phase ++ [' ', 's', 't', 'e', 'p', '-'] ++ Decimal.print step ++ [',', ' '] ++ metric.toLogString value)
  else none

namespace Web

/-- `'step-'`. -/
def stepMark : List Char := ['s', 't', 'e', 'p', '-']

/-- A chart record; `type` is `chart` and `xlabel` is `step` in each of them. -/
structure Chart where
  phase : List Char
  ylabel : List Char
  x : List Char
  y : List Char
  deriving DecidableEq, Repr

/-- A character that `strip('\n ')` drops. -/
def isBlank (c : Char) : Bool := c ∈ ['\n', ' ']

/-- One pass of the loop of `poll_chart_record`. -/
def chartOf (phase step field : List Char) : Run Chart :=
  let kv := (strip isBlank field).splitOn ':'
  match kv[0]?, kv[1]? with
  | some label, some y => .ok ⟨strip isSpace phase, strip isSpace label, strip isSpace step, strip isSpace y⟩
  | _, _ => .error .indexError

/-- `poll_chart_record`, on the lines of the log. -/
def pollChartRecord (lines : List (List Char)) : Run (List Chart) :=
  let ret := (lines.find? fun line => stepMark <:+: line).getD []
  if stepMark <:+: ret then
    match split stepMark ret with
    | before :: behind :: _ =>
      -- `fields[0].split(' ')[-2]`
      match (before.splitOn ' ').reverse[1]? with
      | some phase =>
        let rest := behind.splitOn ','
        rest.tail.mapM (chartOf phase (rest.headD []))
      | none => .error .indexError
    | _ => .ok []
  else .ok []

/-! ## One line -/

theorem not_stepMark_nil : stepMark ≠ [] := by decide

/-- No character of `step-` is a numeral, a blank or a separator of the log, but for the hyphen. -/
theorem not_mem_stepMark {c : Char} (h : c ∈ [' ', ',', ':', '\n']) : c ∉ stepMark := by
  simp only [List.mem_cons, List.not_mem_nil, or_false] at h
  rcases h with rfl | rfl | rfl | rfl
  all_goals decide

theorem not_infix_of_numeral {s : List Char} (h : ∀ c ∈ s, IsNumeral c) : ¬ stepMark <:+: s := by
  intro inside
  have s := h 's' (inside.subset (by decide))
  revert s
  simp [IsNumeral]

theorem numeral_apart {c : Char} (h : IsNumeral c) : isSpace c = false ∧ c ≠ ',' ∧ c ≠ ':' := by
  rcases h with digit | letter
  · refine ⟨Decimal.isSpace_of_isDigit digit, ?_, ?_⟩
    · rintro rfl
      exact absurd digit (by decide)
    · rintro rfl
      exact absurd digit (by decide)
  · simp only [List.mem_cons, List.not_mem_nil, or_false] at letter
    rcases letter with rfl | rfl | rfl | rfl | rfl | rfl
    all_goals decide

theorem isSpace_of_isBlank {c : Char} (h : isBlank c) : isSpace c := by
  simp only [isBlank, decide_eq_true_eq, List.mem_cons, List.not_mem_nil, or_false] at h
  rcases h with rfl | rfl
  · rfl
  · rfl

/-- A printed number is not stripped. -/
theorem strip_numerals {s : List Char} (h : ∀ c ∈ s, IsNumeral c) : strip isSpace s = s := by
  apply strip_eq_self
  intro c hc
  rw [(numeral_apart (h c hc)).1]
  decide

/-- What is read off `" name : number"`, with a line end behind it or not. -/
theorem chartOf_shown (phase tail : List Char) {step name number : List Char} (colon : ':' ∉ name)
    (stepNumeral : ∀ c ∈ step, IsNumeral c) (numeral : ∀ c ∈ number, IsNumeral c) (blank : ∀ c ∈ tail, c = '\n') :
    chartOf phase step (' ' :: (name ++ ' ' :: ':' :: ' ' :: number) ++ tail) =
      .ok ⟨strip isSpace phase, strip isSpace name, step, number⟩ := by
  have shape : ' ' :: (name ++ ' ' :: ':' :: ' ' :: number) ++ tail =
      (' ' :: name ++ [' ']) ++ ':' :: (' ' :: number ++ tail) := by simp
  have space {c : Char} (h : isBlank c) : isSpace c := isSpace_of_isBlank h
  have left : ':' ∉ (' ' :: name ++ [' ']).dropWhile isBlank := by
    intro mem
    have mem := (List.dropWhile_suffix isBlank).subset mem
    simp [colon] at mem
  have right : ':' ∉ (' ' :: number ++ tail).rdropWhile isBlank := by
    intro mem
    have mem := (List.rdropWhile_prefix isBlank _).subset mem
    rcases List.mem_append.mp mem with mem | mem
    · rcases List.mem_cons.mp mem with here | mem
      · exact absurd here (by decide)
      · exact (numeral_apart (numeral _ mem)).2.2 rfl
    · exact absurd (blank _ mem) (by decide)
  have kv : (strip isBlank (' ' :: (name ++ ' ' :: ':' :: ' ' :: number) ++ tail)).splitOn ':' =
      [(' ' :: name ++ [' ']).dropWhile isBlank, (' ' :: number ++ tail).rdropWhile isBlank] := by
    rw [shape, strip_append_cons (by decide), List.splitOn_append_cons_self_of_not_mem left,
      List.splitOn_eq_singleton right]
  have label : strip isSpace ((' ' :: name ++ [' ']).dropWhile isBlank) = strip isSpace name := by
    rw [strip_dropWhile fun c => space, strip_concat (by decide), strip_cons (by decide)]
  have value : strip isSpace ((' ' :: number ++ tail).rdropWhile isBlank) = number := by
    have spaces : ∀ c ∈ tail, isSpace c := fun c hc => by
      rw [blank c hc]
      decide
    rw [strip_rdropWhile fun c => space, strip_append spaces, strip_cons (by decide), strip_numerals numeral]
  unfold chartOf
  dsimp only
  rw [kv]
  dsimp only [List.getElem?_cons_zero, List.getElem?_cons_succ]
  rw [label, value, strip_numerals stepNumeral]

theorem pollChartRecord_cut {line before behind : List Char} (here : cut stepMark line = some (before, behind)) :
    pollChartRecord [line] =
      match (before.splitOn ' ').reverse[1]? with
      | some phase =>
        ((firstPiece stepMark behind).splitOn ',').tail.mapM
          (chartOf phase (((firstPiece stepMark behind).splitOn ',').headD []))
      | none => .error .indexError := by
  have inside : stepMark <:+: line := by
    rw [(cut_spec not_stepMark_nil here).1]
    exact ⟨before, behind, rfl⟩
  obtain ⟨rest, fields⟩ := split_some not_stepMark_nil here
  have found : ([line].find? fun line => stepMark <:+: line) = some line :=
    List.find?_cons_of_pos (decide_eq_true inside)
  unfold pollChartRecord
  rw [found, Option.getD_some, if_pos inside, fields]

/-- The last word but one of what is before `step-`. -/
theorem phase_word {g phase : List Char} (word : ' ' ∉ phase) :
    ((g ++ ' ' :: phase ++ [' ']).splitOn ' ').reverse[1]? = some phase := by
  have words : (g ++ ' ' :: phase ++ [' ']).splitOn ' ' = g.splitOn ' ' ++ [phase, []] := by
    rw [List.splitOn_append_cons_self (g ++ ' ' :: phase) [], List.splitOn_append_cons_self g phase,
      List.splitOn_eq_singleton word, List.splitOn_nil, List.append_assoc]
    rfl
  rw [words]
  simp

/-- Without a space behind it, it is a word of the header. -/
theorem header_word {g before : List Char} (word : ' ' ∉ before) :
    ∃ last, ((g ++ ' ' :: before).splitOn ' ').reverse[1]? = some last ∧ last <:+: g := by
  rw [List.splitOn_append_cons_self g before, List.splitOn_eq_singleton word]
  by_cases space : ' ' ∈ g
  · obtain ⟨tail, init, split, none⟩ := List.eq_append_cons_of_mem (List.mem_reverse.mpr space)
    have whole : g = init.reverse ++ ' ' :: tail.reverse := by
      rw [← List.reverse_reverse g, split]
      simp
    have single : ' ' ∉ tail.reverse := fun mem => none (List.mem_reverse.mp mem)
    refine ⟨tail.reverse, ?_, ?_⟩
    · rw [whole, List.splitOn_append_cons_self, List.splitOn_eq_singleton single]
      simp
    · rw [whole]
      exact ⟨init.reverse ++ [' '], [], by simp⟩
  · refine ⟨g, ?_, List.infix_rfl⟩
    rw [List.splitOn_eq_singleton space]
    simp

section Display

variable {α : Type} [Div α] [IntCast α] (value : α → FloatValue)

/-- The fields behind the step, for entries that are shown. -/
def logFields : List (MetricEntry α) → List (List Char)
  | [] => [[' ', '\n']]
  | [e] => [' ' :: e.shown value ++ ['\n']]
  | e :: rest => (' ' :: e.shown value) :: logFields rest

theorem logFields_cons_cons (e e' : MetricEntry α) (rest : List (MetricEntry α)) :
    logFields value (e :: e' :: rest) = (' ' :: e.shown value) :: logFields value (e' :: rest) := rfl

/-- The record that should be drawn for an entry. -/
def record (phase : List Char) (step : Int) (e : MetricEntry α) : Chart :=
  ⟨phase, e.name, Decimal.print step, e.average value⟩

/-- A name that the log can show. -/
structure Loggable (name : List Char) : Prop where
  comma : ',' ∉ name
  colon : ':' ∉ name
  line : '\n' ∉ name
  step : ¬ stepMark <:+: name

theorem average_numeral (e : MetricEntry α) : ∀ c ∈ e.average value, IsNumeral c :=
  fun _ hc => FloatValue.toChars_numeral hc

theorem comma_shown {e : MetricEntry α} (name : Loggable e.name) : ',' ∉ e.shown value := by
  intro mem
  rcases List.mem_append.mp mem with mem | mem
  · exact name.comma mem
  · simp only [List.mem_cons] at mem
    rcases mem with mem | mem | mem | mem
    · exact absurd mem (by decide)
    · exact absurd mem (by decide)
    · exact absurd mem (by decide)
    · exact (numeral_apart (average_numeral value e _ mem)).2.1 rfl

theorem step_shown {e : MetricEntry α} (name : Loggable e.name) : ¬ stepMark <:+: e.shown value := by
  unfold MetricEntry.shown
  rw [infix_append_cons (not_mem_stepMark (by decide)), not_or]
  refine ⟨name.step, fun inside => ?_⟩
  rcases (infix_append_cons (l := []) (not_mem_stepMark (by decide))).mp inside with inside | inside
  · exact not_stepMark_nil (List.infix_nil.mp inside)
  rcases (infix_append_cons (l := []) (not_mem_stepMark (by decide))).mp inside with inside | inside
  · exact not_stepMark_nil (List.infix_nil.mp inside)
  · exact not_infix_of_numeral (average_numeral value e) inside

theorem step_shownAll {entries : List (MetricEntry α)} (names : ∀ e ∈ entries, Loggable e.name) :
    ¬ stepMark <:+: shownAll value entries := by
  induction entries with
  | nil => exact fun inside => not_stepMark_nil (List.infix_nil.mp inside)
  | cons e rest ih =>
    have first := step_shown value (names e (by simp))
    cases rest with
    | nil => exact first
    | cons e' rest =>
      have others := ih fun e he => names e (List.mem_cons_of_mem _ he)
      rw [shownAll_cons_cons, infix_append_cons (not_mem_stepMark (by decide)), not_or]
      refine ⟨first, fun inside => ?_⟩
      rcases (infix_append_cons (l := []) (not_mem_stepMark (by decide))).mp inside with inside | inside
      · exact not_stepMark_nil (List.infix_nil.mp inside)
      · exact others inside

theorem splitOn_shownAll {entries : List (MetricEntry α)} (names : ∀ e ∈ entries, Loggable e.name) :
    (' ' :: shownAll value entries ++ ['\n']).splitOn ',' = logFields value entries := by
  induction entries with
  | nil =>
    refine List.splitOn_eq_singleton ?_
    simp [shownAll]
  | cons e rest ih =>
    have first := comma_shown value (names e (by simp))
    cases rest with
    | nil =>
      refine List.splitOn_eq_singleton ?_
      simp [first, shownAll]
    | cons e' rest =>
      have others := ih fun e he => names e (List.mem_cons_of_mem _ he)
      have shape : ' ' :: shownAll value (e :: e' :: rest) ++ ['\n'] =
          (' ' :: e.shown value) ++ ',' :: (' ' :: shownAll value (e' :: rest) ++ ['\n']) := by
        simp [shownAll_cons_cons]
      rw [shape, List.splitOn_append_cons_self_of_not_mem (by simp [first]), others, logFields_cons_cons]

/-- Every entry gives one record, with the phase and the name stripped. -/
theorem mapM_logFields {phase step : List Char} {entries : List (MetricEntry α)} (some : entries ≠ [])
    (stepNumeral : ∀ c ∈ step, IsNumeral c) (names : ∀ e ∈ entries, Loggable e.name) :
    (logFields value entries).mapM (chartOf phase step) = .ok (entries.map fun e =>
      ⟨strip isSpace phase, strip isSpace e.name, step, e.average value⟩) := by
  induction entries with
  | nil => exact absurd rfl some
  | cons e rest ih =>
    have colon := (names e (by simp)).colon
    cases rest with
    | nil =>
      have first := chartOf_shown phase ['\n'] colon stepNumeral (average_numeral value e) (by simp)
      have one : logFields value [e] = [' ' :: e.shown value ++ ['\n']] := rfl
      rw [one, List.mapM_cons]
      exact Run.do_ok.mpr ⟨_, first, rfl⟩
    | cons e' rest =>
      have first := chartOf_shown phase [] colon stepNumeral (average_numeral value e) (by simp)
      rw [List.append_nil] at first
      have others := ih (by simp) fun e he => names e (List.mem_cons_of_mem _ he)
      rw [logFields_cons_cons, List.mapM_cons]
      refine Run.do_ok.mpr ⟨_, first, Run.do_ok.mpr ⟨_, others, rfl⟩⟩

/-- What the web server can read: a metric with entries, no `step-` in the phase, and no white space at either
end of the phase or of a name; or no entry, and a `step-` in the phase with no comma up to the next one. -/
def Readable (phase : List Char) (entries : List (MetricEntry α)) : Prop :=
  (entries ≠ [] ∧ ¬ stepMark <:+: phase ∧ strip isSpace phase = phase ∧
    ∀ e ∈ entries, strip isSpace e.name = e.name) ∨
  (entries = [] ∧ ∃ before behind, cut stepMark phase = some (before, behind) ∧ ',' ∉ firstPiece stepMark behind)

theorem mapM_ok_nil {phase step : List Char} {fields : List (List Char)}
    (h : fields.mapM (chartOf phase step) = .ok []) : fields = [] := by
  cases fields with
  | nil => rfl
  | cons field fields =>
    rw [List.mapM_cons] at h
    obtain ⟨_, -, h⟩ := Run.do_ok.mp h
    obtain ⟨_, -, h⟩ := Run.do_ok.mp h
    cases h

/-- A record has the phase that it was made for. -/
theorem mapM_phase {phase step : List Char} {fields : List (List Char)} {chart : Chart} {charts : List Chart}
    (h : fields.mapM (chartOf phase step) = .ok (chart :: charts)) : chart.phase = strip isSpace phase := by
  cases fields with
  | nil => cases h
  | cons field fields =>
    rw [List.mapM_cons] at h
    obtain ⟨first, here, h⟩ := Run.do_ok.mp h
    obtain ⟨_, -, h⟩ := Run.do_ok.mp h
    obtain ⟨rfl, -⟩ := List.cons.inj (Except.ok.inj h)
    unfold chartOf at here
    dsimp only at here
    split at here
    · rw [← Except.ok.inj here]
    · cases here

theorem splitOn_tail_nil {s : List Char} : (s.splitOn ',').tail = [] ↔ ',' ∉ s := by
  constructor
  · intro none mem
    obtain ⟨l, r, rfl⟩ := List.append_of_mem mem
    rw [List.splitOn_append_cons_self] at none
    have left := List.length_pos_iff.mpr (List.splitOn_ne_nil ',' l)
    have right := List.length_pos_iff.mpr (List.splitOn_ne_nil ',' r)
    have length := congrArg List.length none
    rw [List.length_tail, List.length_append, List.length_nil] at length
    omega
  · intro none
    rw [List.splitOn_eq_singleton none]
    rfl

/-- What a line has behind `step-`. -/
def behindStep (step : Int) (entries : List (MetricEntry α)) : List Char :=
  Decimal.print step ++ ',' :: (' ' :: shownAll value entries ++ ['\n'])

theorem displayed_line {srcGrp step : Int} {phase text : List Char} {metric : Metric α} (g : List Char)
    (shown : displayMetric value srcGrp step phase metric = some text) :
    g ++ [' '] ++ text ++ ['\n'] = g ++ ' ' :: (phase ++ ' ' :: (stepMark ++ behindStep value step metric.entries)) := by
  unfold displayMetric at shown
  split at shown
  · rw [← Option.some.inj shown, Metric.toLogString_eq]
    simp [behindStep, stepMark]
  · cases shown

section Behind

variable {step : Int} {entries : List (MetricEntry α)} (names : ∀ e ∈ entries, Loggable e.name)

include names

theorem step_behindStep : ¬ stepMark <:+: behindStep value step entries := by
  rw [behindStep, infix_append_cons (not_mem_stepMark (by decide)), not_or]
  refine ⟨not_infix_of_numeral fun c => print_numeral, fun inside => ?_⟩
  rcases (infix_append_cons (l := []) (not_mem_stepMark (by decide))).mp inside with inside | inside
  · exact not_stepMark_nil (List.infix_nil.mp inside)
  · rcases (infix_append_cons (not_mem_stepMark (by decide))).mp inside with inside | inside
    · exact step_shownAll value names inside
    · exact not_stepMark_nil (List.infix_nil.mp inside)

theorem splitOn_behindStep : (behindStep value step entries).splitOn ',' = Decimal.print step :: logFields value entries := by
  have numeral : ',' ∉ Decimal.print step := fun mem => (numeral_apart (print_numeral mem)).2.1 rfl
  rw [behindStep, List.splitOn_append_cons_self_of_not_mem numeral, splitOn_shownAll value names]

/-- A line that is cut behind the phase. -/
theorem poll_behind_iff {g phase : List Char} (noneG : ¬ stepMark <:+: g) (word : ' ' ∉ phase)
    (outside : ¬ stepMark <:+: phase) :
    pollChartRecord [g ++ ' ' :: (phase ++ ' ' :: (stepMark ++ behindStep value step entries))] =
      .ok (entries.map (record value phase step)) ↔ Readable phase entries := by
  have none : ¬ stepMark <:+: g ++ ' ' :: phase := by
    rw [infix_append_cons (not_mem_stepMark (by decide)), not_or]
    exact ⟨noneG, outside⟩
  have lineCut := cut_behind not_stepMark_nil (not_mem_stepMark (c := ' ') (by decide)) none
    (cut_self not_stepMark_nil (behindStep value step entries))
  rw [List.append_assoc, List.cons_append] at lineCut
  rw [pollChartRecord_cut lineCut, phase_word word, firstPiece_none (step_behindStep value names),
    splitOn_behindStep value names]
  dsimp only [List.tail_cons, List.headD_cons]
  cases entries with
  | nil =>
    refine iff_of_false (fun run => ?_) ?_
    · cases run
    · rintro (⟨some, -⟩ | ⟨-, before, behind, here, -⟩)
      · exact some rfl
      · exact outside ((cut_spec not_stepMark_nil here).1 ▸ ⟨before, behind, rfl⟩)
  | cons e rest =>
    rw [mapM_logFields value (by simp) (fun c => print_numeral) names, Except.ok.injEq, List.map_inj_left]
    constructor
    · intro same
      have fields (e' : MetricEntry α) (he' : e' ∈ e :: rest) := Chart.mk.inj (same e' he')
      exact .inl ⟨by simp, outside, (fields e (by simp)).1, fun e' he' => (fields e' he').2.1⟩
    · rintro (⟨-, -, phaseStrip, nameStrip⟩ | ⟨none, -⟩)
      · intro e' he'
        rw [phaseStrip, nameStrip e' he']
        rfl
      · cases none

omit names

/-- A line that is cut inside the phase: the phase of the records is a word of the header. -/
theorem poll_inside_iff {g phase : List Char} (noneG : ¬ stepMark <:+: g) (word : ' ' ∉ phase)
    (inside : stepMark <:+: phase) :
    pollChartRecord [g ++ ' ' :: (phase ++ ' ' :: (stepMark ++ behindStep value step entries))] =
      .ok (entries.map (record value phase step)) ↔ Readable phase entries := by
  obtain ⟨before, behind, here⟩ := cut_some not_stepMark_nil inside
  have whole := (cut_spec not_stepMark_nil here).1
  have beforeWord : ' ' ∉ before := fun mem => word (by rw [whole]; simp [mem])
  have lineCut := cut_behind not_stepMark_nil (not_mem_stepMark (c := ' ') (by decide)) noneG
    (cut_append_right not_stepMark_nil here (' ' :: (stepMark ++ behindStep value step entries)))
  obtain ⟨last, phaseWord, part⟩ := header_word (g := g) beforeWord
  have noneLast : ¬ stepMark <:+: strip isSpace last := fun there =>
    noneG ((there.trans (strip_within isSpace last)).trans part)
  have firstComma := mem_firstPiece_append (l := behind) (r := behindStep value step entries) (d := ',') not_stepMark_nil
    (not_mem_stepMark (c := ' ') (by decide)) (by decide)
  rw [pollChartRecord_cut lineCut, phaseWord]
  dsimp only
  constructor
  · intro run
    cases entries with
    | nil =>
      refine .inr ⟨rfl, before, behind, here, ?_⟩
      rw [← firstComma]
      exact splitOn_tail_nil.mp (mapM_ok_nil run)
    | cons e rest =>
      -- the phase of the record has no `step-`
      rw [List.map_cons] at run
      have same : phase = strip isSpace last := mapM_phase run
      rw [← same] at noneLast
      exact absurd inside noneLast
  · rintro (⟨-, outside, -⟩ | ⟨none, before', behind', here', free⟩)
    · exact absurd inside outside
    · rw [here] at here'
      obtain ⟨rfl, rfl⟩ := Prod.mk.inj (Option.some.inj here')
      rw [splitOn_tail_nil.mpr (firstComma.not.mpr free), none]
      rfl

end Behind

/-- **The web server reads back what is logged** exactly where it is readable. -/
theorem poll_displayed_iff {srcGrp step : Int} {glog phase text : List Char} {metric : Metric α}
    (space : [' '] <:+ glog) (header : ¬ stepMark <:+: glog) (word : ' ' ∉ phase)
    (names : ∀ e ∈ metric.entries, Loggable e.name) (shown : displayMetric value srcGrp step phase metric = some text) :
    pollChartRecord [glog ++ text ++ ['\n']] = .ok (metric.entries.map (record value phase step)) ↔
      Readable phase metric.entries := by
  obtain ⟨g, rfl⟩ := space
  have noneG : ¬ stepMark <:+: g := fun inside => header (inside.trans (List.prefix_append g [' ']).isInfix)
  rw [displayed_line value g shown]
  by_cases inside : stepMark <:+: phase
  · exact poll_inside_iff value noneG word inside
  · exact poll_behind_iff value names noneG word inside

end Display

/-- The value of a number whose denominator is a power of two. -/
def dyadicValue (x : ℚ) : FloatValue := .finite (decide (x < 0)) x.num.natAbs (-(Nat.log2 x.den : Int))

def logHeader : List Char := "E0803 12:00:00.000000 7 trainer.cc:384] ".toList

/-- A loss that is 0.5 on average, and a precision of 0.75. -/
def halfLoss : Metric ℚ := ⟨[⟨"loss".toList, 2, 1⟩, ⟨"precision".toList, 4, 3⟩], by decide⟩

theorem halfLoss_polled : ∃ text, displayMetric dyadicValue 0 5 "Train".toList halfLoss = some text ∧
    pollChartRecord [logHeader ++ text ++ ['\n']] =
      .ok (halfLoss.entries.map (record dyadicValue "Train".toList 5)) := by
  obtain ⟨text, shown⟩ : ∃ text, displayMetric dyadicValue 0 5 "Train".toList halfLoss = some text := ⟨_, rfl⟩
  refine ⟨text, shown, (poll_displayed_iff dyadicValue ?_ ?_ ?_ ?_ shown).mpr (.inl ?_)⟩
  · decide
  · decide
  · decide
  · intro e he
    rcases List.mem_pair.mp he with rfl | rfl <;> exact ⟨by decide, by decide, by decide, by decide⟩
  · exact ⟨by decide, by decide, by decide, by decide⟩

/-- A metric without entries, which the log shows as nothing. -/
def emptyMetric : Metric ℚ := ⟨[], by decide⟩

/-- An empty metric raises an `IndexError`. -/
theorem emptyMetric_not_polled : ∃ text, displayMetric dyadicValue 0 5 "Train".toList emptyMetric = some text ∧
    pollChartRecord [logHeader ++ text ++ ['\n']] = .error .indexError ∧
    ¬ pollChartRecord [logHeader ++ text ++ ['\n']] =
      .ok (emptyMetric.entries.map (record dyadicValue "Train".toList 5)) := by
  obtain ⟨text, shown, raised⟩ : ∃ text, displayMetric dyadicValue 0 5 "Train".toList emptyMetric = some text ∧
      pollChartRecord [logHeader ++ text ++ ['\n']] = .error .indexError := ⟨_, rfl, by decide +kernel⟩
  refine ⟨text, shown, raised, fun run => ?_⟩
  rw [raised] at run
  cases run

end Web
end Singa
