import Singa.Base.Braces
import Singa.Web.ParseMessage

/-!
# Reading a configuration step by step

What `getNextConf` finds in a text that begins like an entry, and the relation
between a text and what `parseMessage` adds to an object for it (`Parses`): a
run with enough fuel is that relation (`parseMessage_ok_iff`). White space at
the ends of a text makes no difference.
-/

namespace Singa.Web
set_option autoImplicit false

open Text Braces

/-! ## Trimming -/

theorem isTrimmed_space : isTrimmed ' ' = true := rfl

theorem isTrimmed_newline : isTrimmed '\n' = true := rfl

theorem isTrimmed_of_isWord {c : Char} (word : isWord c) : isTrimmed c = false := by
  have range : 48 ≤ c.toNat ∧ c.toNat ≤ 122 := by
    simp only [isWord, Char.isAlphanum, Char.isAlpha, Char.isUpper, Char.isLower, Char.isDigit, Bool.or_eq_true,
      Bool.and_eq_true, decide_eq_true_eq, beq_iff_eq, ge_iff_le, UInt32.le_iff_toNat_le] at word
    rcases word with ((⟨l, u⟩ | ⟨l, u⟩) | ⟨l, u⟩) | rfl
    · exact ⟨le_trans (by decide) l, le_trans u (by decide)⟩
    · exact ⟨le_trans (by decide) l, le_trans u (by decide)⟩
    · exact ⟨le_trans (by decide) l, le_trans u (by decide)⟩
    · decide
  simp only [isTrimmed, Bool.or_eq_false_iff, Bool.and_eq_false_iff, decide_eq_false_iff_not, beq_eq_false_iff_ne]
  omega

/-- White space. -/
def Blank (s : Str) : Prop := ∀ c ∈ s, isTrimmed c

theorem trim_blank_left {w : Str} (blank : Blank w) (s : Str) : trim (w ++ s) = trim s := by
  induction w with
  | nil => rfl
  | cons c w ih =>
    rw [List.cons_append, trim, strip_cons (blank c List.mem_cons_self)]
    exact ih fun d mem => blank d (List.mem_cons_of_mem c mem)

theorem trim_blank_right {w : Str} (blank : Blank w) (s : Str) : trim (s ++ w) = trim s := strip_append blank s

theorem trim_blank {w : Str} (blank : Blank w) : trim w = [] := trim_blank_right blank []

theorem mem_trim {s : Str} {c : Char} (kept : isTrimmed c = false) : c ∈ trim s ↔ c ∈ s := by
  refine ⟨fun mem => (strip_within isTrimmed s).subset mem, fun mem => ?_⟩
  obtain ⟨l, r, rfl⟩ := List.append_of_mem mem
  rw [trim, strip_append_cons (by simp [kept])]
  exact List.mem_append_right _ List.mem_cons_self

theorem trim_name {name : Str} (word : ∀ c ∈ name, isWord c) : trim name = name :=
  strip_eq_self fun c mem => by simp [isTrimmed_of_isWord (word c mem)]

/-- The right end of a text is trimmed within its last part, unless that is white space. -/
theorem rdropWhile_append {p : Char → Bool} (x y : Str) :
    ((∀ c ∈ y, p c) ∧ (x ++ y).rdropWhile p = x.rdropWhile p) ∨
      (x ++ y).rdropWhile p = x ++ y.rdropWhile p ∧ ∃ w, y = y.rdropWhile p ++ w ∧ ∀ c ∈ w, p c := by
  by_cases blank : ∀ c ∈ y, p c
  · left
    refine ⟨blank, ?_⟩
    induction y using List.reverseRecOn with
    | nil => rw [List.append_nil]
    | append_singleton y c ih =>
      rw [← List.append_assoc, List.rdropWhile_concat_pos p _ c (blank c (by simp))]
      exact ih fun d mem => blank d (List.mem_append_left _ mem)
  · right
    induction y using List.reverseRecOn with
    | nil => exact absurd (by simp) blank
    | append_singleton y c ih =>
      by_cases last : p c
      · obtain ⟨same, w, whole, rest⟩ := ih fun all => blank fun d mem => by
          rcases List.mem_append.mp mem with mem | mem
          · exact all d mem
          · rw [List.mem_singleton.mp mem]
            exact last
        rw [← List.append_assoc, List.rdropWhile_concat_pos p _ c last, List.rdropWhile_concat_pos p y c last]
        refine ⟨same, w ++ [c], by rw [← List.append_assoc, ← whole], fun d mem => ?_⟩
        rcases List.mem_append.mp mem with mem | mem
        · exact rest d mem
        · rw [List.mem_singleton.mp mem]
          exact last
      · rw [← List.append_assoc, List.rdropWhile_concat_neg p _ c last, List.rdropWhile_concat_neg p y c last]
        exact ⟨List.append_assoc x y [c], [], by simp, by simp⟩

/-! ## Where something is first -/

theorem indexOf_first {l r : Str} {c : Char} (none : c ∉ l) : indexOf (l ++ c :: r) c = some l.length := by
  unfold indexOf
  rw [List.findIdx?_append, List.findIdx?_eq_none_iff.mpr, List.findIdx?_cons]
  · simp
  · intro d mem
    exact beq_eq_false_iff_ne.mpr fun same => none (same ▸ mem)

theorem indexOf_eq_none {s : Str} {c : Char} : indexOf s c = none ↔ c ∉ s := by
  unfold indexOf
  rw [List.findIdx?_eq_none_iff]
  constructor
  · intro all mem
    exact absurd (all c mem) (by simp)
  · intro none d mem
    exact beq_eq_false_iff_ne.mpr fun same => none (same ▸ mem)

/-- What is not in the first part comes behind it. -/
theorem indexOf_behind {l r : Str} {c d : Char} (none : c ∉ l) (other : c ≠ d) :
    ∀ i ∈ indexOf (l ++ d :: r) c, l.length < i := by
  intro i mem
  unfold indexOf at mem
  rw [List.findIdx?_append, List.findIdx?_eq_none_iff.mpr, List.findIdx?_cons] at mem
  · rw [if_neg (by simpa using other.symm)] at mem
    simp only [Option.none_or, Option.mem_def, Option.map_map, Option.map_eq_some_iff] at mem
    obtain ⟨j, -, rfl⟩ := mem
    show l.length < j + 1 + l.length
    omega
  · intro a mem
    exact beq_eq_false_iff_ne.mpr fun same => none (same ▸ mem)

/-! ## One step -/

theorem closing_eq {n : Nat} (pos : 1 ≤ n) (s : Str) : closing n s = blockEnd '\x7b' '\x7d' n s := by
  induction s generalizing n with
  | nil => rfl
  | cons c s ih =>
    rw [closing, blockEnd]
    by_cases opens : c = '\x7b'
    · have other : c ≠ '\x7d' := by
        rw [opens]
        decide
      rw [if_pos opens, if_pos opens, if_neg other, if_neg (by omega), ih (by omega)]
    · rw [if_neg opens, if_neg opens]
      by_cases closes : c = '\x7d'
      · rw [if_pos closes, if_pos closes]
        by_cases last : n ≤ 1
        · rw [if_pos (by omega), if_pos last]
        · rw [if_neg (by omega), if_neg last, ih (by omega)]
      · rw [if_neg closes, if_neg closes, if_neg (by omega), ih pos]

theorem getNextConf_trim {conf conf' : Str} (same : trim conf = trim conf') : getNextConf conf = getNextConf conf' := by
  unfold getNextConf
  rw [same]

/-- Nothing comes next in a text without a colon and without an opening brace. -/
theorem getNextConf_eq_none {conf : Str} : getNextConf conf = none ↔ ':' ∉ conf ∧ '\x7b' ∉ conf := by
  rw [← mem_trim (s := conf) (c := ':') rfl, ← mem_trim (s := conf) (c := '\x7b') rfl, ← indexOf_eq_none, ← indexOf_eq_none]
  unfold getNextConf
  dsimp only
  cases colon : indexOf (trim conf) ':' with
  | none => cases brace : indexOf (trim conf) '\x7b' <;> simp
  | some index1 =>
    cases brace : indexOf (trim conf) '\x7b' with
    | none => simp
    | some index2 =>
      dsimp only
      split <;> simp

section Step

variable {indent : Str} (name : Name) (blank : Blank indent)

include blank in
theorem dropWhile_name (r : Str) (c : Char) (kept : isTrimmed c = false) (gap : Str) :
    trim (indent ++ (name.chars ++ (gap ++ c :: r))) = name.chars ++ (gap ++ c :: r.rdropWhile isTrimmed) := by
  obtain ⟨d, ds, whole⟩ := List.exists_cons_of_ne_nil name.word.1
  have first : isTrimmed d = false := isTrimmed_of_isWord (name.word.2 d (by rw [whole]; exact List.mem_cons_self))
  rw [trim_blank_left blank, whole, List.cons_append]
  have shape : d :: (ds ++ (gap ++ c :: r)) = (d :: ds ++ gap) ++ c :: r := by simp
  rw [shape, trim, strip_append_cons (by simp [kept]), List.cons_append, List.dropWhile_cons_of_neg (by simp [first])]
  simp

theorem not_mem_name {c : Char} (other : isWord c = false) : c ∉ name.chars := by
  intro mem
  rw [name.word.2 c mem] at other
  cases other

/-- A field, by the trimmed text. -/
theorem getNextConf_colon {conf r : Str} (trimmed : trim conf = name.chars ++ ':' :: r) :
    (∃ v rest, '\n' ∉ v ∧ r = v ++ '\n' :: rest ∧ getNextConf conf = some (.field name.chars (fieldValue v), rest)) ∨
      '\n' ∉ r ∧ getNextConf conf = some (.field name.chars (fieldValue r), []) := by
  have colon := indexOf_first (r := r) (not_mem_name name (c := ':') rfl)
  have brace := indexOf_behind (r := r) (not_mem_name name (c := '\x7b') rfl) (show '\x7b' ≠ ':' by decide)
  have step : getNextConf conf = some (.field name.chars (fieldValue (substr (name.chars ++ ':' :: r) (name.chars.length + 1)
      ((indexOf (name.chars ++ ':' :: r) '\n').getD (name.chars ++ ':' :: r).length - name.chars.length - 1))),
      (name.chars ++ ':' :: r).drop ((indexOf (name.chars ++ ':' :: r) '\n').getD (name.chars ++ ':' :: r).length + 1)) := by
    unfold getNextConf
    rw [trimmed]
    dsimp only
    rw [colon]
    dsimp only
    rw [if_pos brace]
    have key : substr (name.chars ++ ':' :: r) 0 name.chars.length = name.chars := by simp [substr]
    rw [key, trim_name name.word.2]
  have shape : name.chars ++ ':' :: r = (name.chars ++ [':']) ++ r := by simp
  have head : (name.chars ++ [':']).length = name.chars.length + 1 := by simp
  by_cases newline : '\n' ∈ r
  · left
    obtain ⟨v, rest, rfl, first⟩ := List.eq_append_cons_of_mem newline
    refine ⟨v, rest, first, rfl, ?_⟩
    have before : '\n' ∉ name.chars ++ ':' :: v := by simp [not_mem_name name (c := '\n') rfl, first]
    have whole : name.chars ++ ':' :: (v ++ '\n' :: rest) = (name.chars ++ ':' :: v) ++ '\n' :: rest := by simp
    have length : (name.chars ++ ':' :: v).length = name.chars.length + 1 + v.length := by
      rw [List.length_append, List.length_cons]
      omega
    rw [step, whole, indexOf_first before, Option.getD_some, length]
    have value : substr ((name.chars ++ ':' :: v) ++ '\n' :: rest) (name.chars.length + 1)
        (name.chars.length + 1 + v.length - name.chars.length - 1) = v := by
      unfold substr
      rw [← whole, shape, ← head, List.drop_left, head, show name.chars.length + 1 + v.length - name.chars.length - 1 = v.length by omega,
        List.take_left]
    rw [value, ← length, ← List.drop_drop, List.drop_left]
    rfl
  · right
    refine ⟨newline, ?_⟩
    have none : indexOf (name.chars ++ ':' :: r) '\n' = none := by
      rw [indexOf_eq_none, shape]
      simp [not_mem_name name (c := '\n') rfl, newline]
    rw [step, none, Option.getD_none, shape]
    unfold substr
    rw [← head, List.drop_left, List.drop_eq_nil_of_le (Nat.le_succ _), List.take_of_length_le]
    simp

include blank in
/-- A line of a field: its value, and what is behind it. -/
theorem getNextConf_field {raw behind : Str} (oneLine : '\n' ∉ raw) (end_ : behind = [] ∨ ∃ rest, behind = '\n' :: rest) :
    ∃ rest, getNextConf (indent ++ (name.chars ++ (": ".toList ++ (raw ++ behind)))) =
      some (.field name.chars (fieldValue raw), rest) ∧ trim rest = trim (behind.drop 1) := by
  have trimmed : trim (indent ++ (name.chars ++ (": ".toList ++ (raw ++ behind)))) =
      name.chars ++ ':' :: (' ' :: (raw ++ behind)).rdropWhile isTrimmed :=
    dropWhile_name name blank (' ' :: (raw ++ behind)) ':' rfl []
  have value : ∀ v, trim v = trim raw → fieldValue v = fieldValue raw := by
    intro v same
    rw [fieldValue, fieldValue, same]
  have alone : trim ((' ' :: raw).rdropWhile isTrimmed) = trim raw := by
    rw [trim, strip_rdropWhile fun _ h => h, strip_cons (by decide)]
    rfl
  -- what is left of the text behind the colon
  have shape : (∃ rest, (' ' :: (raw ++ behind)).rdropWhile isTrimmed = (' ' :: raw) ++ '\n' :: rest ∧
      trim rest = trim (behind.drop 1)) ∨
      (' ' :: (raw ++ behind)).rdropWhile isTrimmed = (' ' :: raw).rdropWhile isTrimmed ∧ trim (behind.drop 1) = [] := by
    rcases end_ with rfl | ⟨rest, rfl⟩
    · right
      rw [List.append_nil]
      exact ⟨rfl, rfl⟩
    · have split : ' ' :: (raw ++ '\n' :: rest) = (' ' :: raw ++ ['\n']) ++ rest := by simp
      rw [split]
      rcases rdropWhile_append (p := isTrimmed) (' ' :: raw ++ ['\n']) rest with ⟨all, same⟩ | ⟨same, w, whole, blank_w⟩
      · right
        rw [same, List.rdropWhile_concat_pos _ _ _ (by decide)]
        exact ⟨rfl, trim_blank all⟩
      · left
        refine ⟨rest.rdropWhile isTrimmed, ?_, ?_⟩
        · rw [same]
          simp
        · rw [trim, strip_rdropWhile fun _ h => h]
          rfl
  have none : '\n' ∉ ' ' :: raw := by simp [oneLine]
  rcases shape with ⟨rest, same, left⟩ | ⟨same, left⟩
  · rw [same] at trimmed
    rcases getNextConf_colon name trimmed with ⟨v, rest', first, split, step⟩ | ⟨first, -⟩
    · rcases cut_cases split first with ⟨rfl, rfl⟩ | ⟨w, long, -⟩
      · refine ⟨rest, ?_, left⟩
        rw [step, value (' ' :: raw) (by rw [trim, strip_cons (by decide)]; rfl)]
      · exact absurd (by rw [long]; simp) none
    · exact absurd (by simp) first
  · rw [same] at trimmed
    have first : '\n' ∉ (' ' :: raw).rdropWhile isTrimmed := fun mem => none ((List.rdropWhile_prefix _ _).subset mem)
    rcases getNextConf_colon name trimmed with ⟨v, rest', -, split, -⟩ | ⟨-, step⟩
    · exact absurd (by rw [split]; simp) first
    · refine ⟨[], ?_, left.symm⟩
      rw [step, value _ alone]

theorem trim_drop {w : Str} (white : Blank w) (s : Str) (n : Nat) : trim ((s ++ w).drop n) = trim (s.drop n) := by
  rw [List.drop_append]
  exact trim_blank_right (fun c mem => white c (List.mem_of_mem_drop mem)) _

/-- White space behind a text does not move the end of a block. -/
theorem blockEnd_blank {w : Str} (white : Blank w) (s : Str) :
    trim (s.take (blockEnd '\x7b' '\x7d' 1 s)) = trim ((s ++ w).take (blockEnd '\x7b' '\x7d' 1 (s ++ w))) ∧
      trim (s.drop (blockEnd '\x7b' '\x7d' 1 s + 2)) = trim ((s ++ w).drop (blockEnd '\x7b' '\x7d' 1 (s ++ w) + 2)) := by
  have plain : '\x7b' ∉ w ∧ '\x7d' ∉ w :=
    ⟨fun mem => absurd (white _ mem) (by decide), fun mem => absurd (white _ mem) (by decide)⟩
  rcases blockEnd_cases (o := '\x7b') (c := '\x7d') le_rfl s with ⟨u, v, rfl, inside, stop⟩ | ⟨m, inside, stop⟩
  · have stop' : blockEnd '\x7b' '\x7d' 1 (u ++ '\x7d' :: v ++ w) = u.length := by
      rw [List.append_assoc, blockEnd_append inside]
      rfl
    rw [stop, stop', trim_drop white, List.append_assoc, List.take_left, List.take_left]
    exact ⟨rfl, rfl⟩
  · have stop' : blockEnd '\x7b' '\x7d' 1 (s ++ w) = (s ++ w).length := by
      rw [blockEnd_append inside, List.length_append]
      have rest := blockEnd_append (t := []) (depth_plain (n := m) plain.1 plain.2)
      rw [List.append_nil] at rest
      rw [rest]
      rfl
    rw [stop, stop', List.take_length, List.take_length, List.drop_eq_nil_of_le (Nat.le_add_right _ 2),
      List.drop_eq_nil_of_le (Nat.le_add_right _ 2)]
    exact ⟨(trim_blank_right white s).symm, rfl⟩

include blank in
/-- A message: what is up to the end of its block, and what is behind. -/
theorem getNextConf_message (behind : Str) :
    ∃ value rest, getNextConf (indent ++ (name.chars ++ (" ".toList ++ '\x7b' :: behind))) =
      some (.message name.chars value, rest) ∧
        trim value = trim (behind.take (blockEnd '\x7b' '\x7d' 1 behind)) ∧
          trim rest = trim (behind.drop (blockEnd '\x7b' '\x7d' 1 behind + 2)) := by
  have trimmed := dropWhile_name name blank behind '\x7b' rfl " ".toList
  obtain ⟨w, whole, white⟩ : ∃ w, behind = behind.rdropWhile isTrimmed ++ w ∧ Blank w := by
    rcases rdropWhile_append (p := isTrimmed) [] behind with ⟨all, -⟩ | ⟨-, w, whole, white⟩
    · exact ⟨behind, by rw [List.rdropWhile_eq_nil_iff.mpr all, List.nil_append], all⟩
    · exact ⟨w, whole, white⟩
  generalize behind.rdropWhile isTrimmed = inner at trimmed whole
  have text : name.chars ++ (" ".toList ++ '\x7b' :: inner) = (name.chars ++ [' ']) ++ '\x7b' :: inner := by simp
  have text' : name.chars ++ (" ".toList ++ '\x7b' :: inner) = (name.chars ++ [' ', '\x7b']) ++ inner := by simp
  have length : (name.chars ++ [' ', '\x7b']).length = name.chars.length + 1 + 1 := by simp
  have brace : indexOf (name.chars ++ (" ".toList ++ '\x7b' :: inner)) '\x7b' = some (name.chars.length + 1) := by
    rw [text, indexOf_first (by simp [not_mem_name name (c := '\x7b') rfl])]
    simp
  have colon : ∀ i ∈ indexOf (name.chars ++ (" ".toList ++ '\x7b' :: inner)) ':', name.chars.length + 1 < i := by
    rw [text]
    have behind := indexOf_behind (l := name.chars ++ [' ']) (r := inner) (c := ':') (d := '\x7b')
      (by simp [not_mem_name name (c := ':') rfl]) (by decide)
    simpa using behind
  have step : getNextConf (indent ++ (name.chars ++ (" ".toList ++ '\x7b' :: behind))) =
      some (getNextConf.nextMessage (name.chars ++ (" ".toList ++ '\x7b' :: inner)) (name.chars.length + 1)) := by
    unfold getNextConf
    rw [trimmed]
    dsimp only
    rw [brace]
    cases first : indexOf (name.chars ++ (" ".toList ++ '\x7b' :: inner)) ':' with
    | none => rfl
    | some index1 =>
      have later := colon index1 first
      dsimp only
      rw [if_neg fun all => absurd (all _ rfl) (by omega)]
      rfl
  have next : getNextConf.nextMessage (name.chars ++ (" ".toList ++ '\x7b' :: inner)) (name.chars.length + 1) =
      (.message name.chars (inner.take (blockEnd '\x7b' '\x7d' 1 inner)),
        inner.drop (blockEnd '\x7b' '\x7d' 1 inner + 2)) := by
    have key : trim (substr (name.chars ++ (" ".toList ++ '\x7b' :: inner)) 0 (name.chars.length + 1)) = name.chars := by
      have front : substr (name.chars ++ (" ".toList ++ '\x7b' :: inner)) 0 (name.chars.length + 1) = name.chars ++ [' '] := by
        rw [text, substr, List.drop_zero]
        exact List.take_left' (by simp)
      rw [front, trim_blank_right (by simp [Blank, isTrimmed_space]), trim_name name.word.2]
    have drop : (name.chars ++ (" ".toList ++ '\x7b' :: inner)).drop (name.chars.length + 1 + 1) = inner := by
      rw [text', ← length, List.drop_left]
    unfold getNextConf.nextMessage
    dsimp only
    rw [key, drop, closing_eq le_rfl]
    unfold substr
    rw [drop, show name.chars.length + 1 + 1 + blockEnd '\x7b' '\x7d' 1 inner - (name.chars.length + 1) - 1 =
      blockEnd '\x7b' '\x7d' 1 inner by omega, Nat.add_assoc _ _ 2, ← List.drop_drop, drop]
  obtain ⟨value, rest⟩ := blockEnd_blank white inner
  rw [← whole] at value rest
  exact ⟨_, _, by rw [step, next], value, rest⟩

end Step

/-! ## Runs -/

/-- What is read is shorter. -/
theorem getNextConf_shorter {conf rest : Str} {c : Conf} (h : getNextConf conf = some (c, rest)) :
    rest.length < conf.length ∧ ∀ key value, c = .message key value → value.length < conf.length := by
  have trimmed : (trim conf).length ≤ conf.length := (strip_within isTrimmed conf).length_le
  have nonempty : 0 < (trim conf).length := by
    rw [List.length_pos_iff]
    intro empty
    have none : getNextConf conf = none := by
      unfold getNextConf
      rw [empty]
      rfl
    rw [none] at h
    cases h
  have block (index2 : Nat) : (getNextConf.nextMessage (trim conf) index2).2.length < conf.length ∧
      ∀ key value, (getNextConf.nextMessage (trim conf) index2).1 = .message key value → value.length < conf.length := by
    unfold getNextConf.nextMessage
    refine ⟨by rw [List.length_drop]; omega, fun key value same => ?_⟩
    obtain ⟨-, rfl⟩ := Conf.message.inj same
    rw [substr, List.length_take, List.length_drop]
    omega
  unfold getNextConf at h
  dsimp only at h
  split at h
  · next index1 index2 _ =>
    split at h
    · cases h
      refine ⟨by rw [List.length_drop]; omega, fun key value same => by cases same⟩
    · obtain ⟨i, -, same⟩ := Option.map_eq_some_iff.mp h
      have := block i
      rw [same] at this
      exact this
  · next index2 _ =>
    obtain ⟨i, -, same⟩ := Option.map_eq_some_iff.mp h
    have := block i
    rw [same] at this
    exact this

/-- What is added to an object, in order. -/
abbrev Log := List (Str × JsValue)

/-- `addField` for all that is added. -/
def addAll (result : JsObject) (log : Log) : Run JsObject := log.foldlM (fun result p => addField result p.1 p.2) result

/-- A text and what `parseMessage` adds for it. -/
inductive Parses : Str → Log → Prop where
  | done {conf : Str} (step : getNextConf conf = none) : Parses conf []
  | field {conf key value rest : Str} {log : Log} (step : getNextConf conf = some (.field key value, rest))
      (tail : Parses rest log) : Parses conf ((key, .text value) :: log)
  | message {conf key value rest : Str} {inner log : Log} {o : JsObject}
      (step : getNextConf conf = some (.message key value, rest)) (below : Parses value inner)
      (built : addAll [] inner = .ok o) (tail : Parses rest log) : Parses conf ((key, .object o) :: log)

theorem Parses.trim {conf conf' : Str} {log : Log} (h : Parses conf log) (same : Web.trim conf = Web.trim conf') :
    Parses conf' log := by
  have steps := getNextConf_trim same
  cases h with
  | done step => exact .done (steps ▸ step)
  | field step tail => exact .field (steps ▸ step) tail
  | message step below built tail => exact .message (steps ▸ step) below built tail

theorem Parses.of_none {conf : Str} {log : Log} (h : Parses conf log) (none : getNextConf conf = none) : log = [] := by
  cases h with
  | done _ => rfl
  | field step _ =>
    rw [none] at step
    cases step
  | message step _ _ _ =>
    rw [none] at step
    cases step

theorem Parses.of_field {conf key value rest : Str} {log : Log} (h : Parses conf log)
    (next : getNextConf conf = some (.field key value, rest)) :
    ∃ tail, log = (key, .text value) :: tail ∧ Parses rest tail := by
  cases h with
  | done step =>
    rw [next] at step
    cases step
  | field step tail =>
    rw [next] at step
    cases step
    exact ⟨_, rfl, tail⟩
  | message step _ _ _ =>
    rw [next] at step
    cases step

theorem Parses.of_message {conf key value rest : Str} {log : Log} (h : Parses conf log)
    (next : getNextConf conf = some (.message key value, rest)) :
    ∃ inner o tail, log = (key, .object o) :: tail ∧ Parses value inner ∧ addAll [] inner = .ok o ∧ Parses rest tail := by
  cases h with
  | done step =>
    rw [next] at step
    cases step
  | field step _ =>
    rw [next] at step
    cases step
  | message step below built tail =>
    rw [next] at step
    cases step
    exact ⟨_, _, _, rfl, below, built, tail⟩

/-- **A run with enough fuel** returns the object to which all is added that the text says. -/
theorem parseMessage_ok_iff {fuel : Nat} {conf : Str} (enough : conf.length < fuel) {result o : JsObject} :
    parseMessage fuel result conf = .ok o ↔ ∃ log, Parses conf log ∧ addAll result log = .ok o := by
  induction fuel generalizing conf result o with
  | zero => omega
  | succ fuel ih =>
    rw [parseMessage]
    cases step : getNextConf conf with
    | none =>
      constructor
      · intro same
        exact ⟨[], .done step, same⟩
      · rintro ⟨log, parses, added⟩
        rw [parses.of_none step] at added
        exact added
    | some next =>
      obtain ⟨c, rest⟩ := next
      obtain ⟨shorter, inner_shorter⟩ := getNextConf_shorter step
      cases c with
      | field key value =>
        dsimp only
        rw [Run.do_ok]
        constructor
        · rintro ⟨result', added, ran⟩
          obtain ⟨log, parses, rest_added⟩ := (ih (by omega)).mp ran
          exact ⟨_, .field step parses, Run.do_ok.mpr ⟨result', added, rest_added⟩⟩
        · rintro ⟨log, parses, added⟩
          obtain ⟨tail, rfl, behind⟩ := parses.of_field step
          obtain ⟨result', first, rest_added⟩ := Run.do_ok.mp added
          exact ⟨result', first, (ih (by omega)).mpr ⟨tail, behind, rest_added⟩⟩
      | message key value =>
        have shorter' := inner_shorter key value rfl
        dsimp only
        rw [Run.do_ok]
        constructor
        · rintro ⟨below, ran_below, ran⟩
          obtain ⟨result', added, ran⟩ := Run.do_ok.mp ran
          obtain ⟨inner, parses_below, built⟩ := (ih (by omega)).mp ran_below
          obtain ⟨log, parses, rest_added⟩ := (ih (by omega)).mp ran
          exact ⟨_, .message step parses_below built parses, Run.do_ok.mpr ⟨result', added, rest_added⟩⟩
        · rintro ⟨log, parses, added⟩
          obtain ⟨inner, below, tail, rfl, parses_below, built, behind⟩ := parses.of_message step
          obtain ⟨result', first, rest_added⟩ := Run.do_ok.mp added
          exact ⟨below, (ih (by omega)).mpr ⟨inner, parses_below, built⟩,
            Run.do_ok.mpr ⟨result', first, (ih (by omega)).mpr ⟨tail, behind, rest_added⟩⟩⟩

theorem addField_ne_fuel (result : JsObject) (key : Str) (value : JsValue) : addField result key value ≠ .error .fuel := by
  unfold addField
  dsimp only
  split
  · exact nofun
  · exact nofun
  · split
    · split
      · exact nofun
      · split <;> exact nofun
    · exact nofun

/-- **`parseMessage` terminates on every text.** -/
theorem parseMessage_terminates {fuel : Nat} {conf : Str} (enough : conf.length < fuel) (result : JsObject) :
    parseMessage fuel result conf ≠ .error .fuel := by
  induction fuel generalizing conf result with
  | zero => omega
  | succ fuel ih =>
    rw [parseMessage]
    cases step : getNextConf conf with
    | none => exact nofun
    | some next =>
      obtain ⟨c, rest⟩ := next
      obtain ⟨shorter, inner_shorter⟩ := getNextConf_shorter step
      cases c with
      | field key value =>
        intro stopped
        rcases Run.do_error.mp stopped with stopped | ⟨result', -, stopped⟩
        · exact addField_ne_fuel _ _ _ stopped
        · exact ih (by omega) _ stopped
      | message key value =>
        have shorter' := inner_shorter key value rfl
        intro stopped
        rcases Run.do_error.mp stopped with stopped | ⟨below, -, stopped⟩
        · exact ih (by omega) _ stopped
        · rcases Run.do_error.mp stopped with stopped | ⟨result', -, stopped⟩
          · exact addField_ne_fuel _ _ _ stopped
          · exact ih (by omega) _ stopped

end Singa.Web
