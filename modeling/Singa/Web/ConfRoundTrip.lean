import Singa.Web.Package
import Singa.Web.ReadObject

/-!
# Does `parseMessage` read back what `toConf` prints?

Quotation marks do not keep the braces of a string from being counted. An object
represents the printed entries exactly if, in every message, no brace of a value
closes the message before its end, and none is left open unless nothing but the
ends of messages follows.
-/

namespace Singa.Web
set_option autoImplicit false

open Braces

/-! ## Braces -/

mutual

/-- The values in an entry, with the braces of the messages they are in. -/
def Entry.braced : Entry → Str
  | .scalar _ _ v => v.chars
  | .message _ es => '\x7b' :: (braced es ++ ['\x7d'])

def braced : List Entry → Str
  | [] => []
  | e :: es => e.braced ++ braced es

end

/-- How many braces are open behind the entries of a message; `none` if it ends before. -/
def Entry.balance : Entry → Option Nat
  | .scalar _ _ _ => some 1
  | .message _ es => depth '\x7b' '\x7d' 1 (Web.braced es)

mutual

/-- In every message the braces of the values match; in one that nothing follows, some may be left open. -/
def Entry.Matched : Entry → Prop
  | .scalar _ _ _ => True
  | .message _ es => Matched es

def Matched : List Entry → Prop
  | [] => True
  | e :: es => e.Matched ∧ Matched es ∧ (e.balance = some 1 ∨ es = [] ∧ ∃ n, e.balance = some n)

end

theorem matched_scalar {name : Name} {quoted : Bool} {v : Line} {es : List Entry} :
    Matched (.scalar name quoted v :: es) ↔ Matched es := by
  rw [Matched, Entry.Matched, true_and]
  exact and_iff_left (.inl rfl)

theorem matched_message {name : Name} {sub es : List Entry} :
    Matched (.message name sub :: es) ↔ Matched sub ∧ Matched es ∧
      (depth '\x7b' '\x7d' 1 (braced sub) = some 1 ∨ es = [] ∧ ∃ n, depth '\x7b' '\x7d' 1 (braced sub) = some n) := by
  rw [Matched, Entry.Matched, Entry.balance]

mutual

/-- Whether braces match can be computed. -/
def Entry.decidableMatched : (e : Entry) → Decidable e.Matched
  | .scalar _ _ _ => isTrue (by rw [Entry.Matched]; trivial)
  | .message _ es => @decidable_of_iff _ (Web.Matched es) (by rw [Entry.Matched]) (Web.decidableMatched es)

instance decidableMatched : (es : List Entry) → Decidable (Matched es)
  | [] => isTrue (by rw [Matched]; trivial)
  | e :: es =>
    have := e.decidableMatched
    have := decidableMatched es
    decidable_of_iff (e.Matched ∧ Matched es ∧ (e.balance = some 1 ∨ es.isEmpty ∧ e.balance.isSome)) (by
      rw [Matched, List.isEmpty_iff, Option.isSome_iff_exists])

end

/-- What a text is indented with. -/
def Spaces (s : Str) : Prop := ∀ c ∈ s, c = ' '

theorem Spaces.not_mem {s : Str} (spaces : Spaces s) {c : Char} (other : c ≠ ' ') : c ∉ s := fun mem => other (spaces c mem)

theorem Spaces.blank {s : Str} (spaces : Spaces s) : Blank s := by
  intro c mem
  rw [spaces c mem]
  rfl

theorem Spaces.deeper {s : Str} (spaces : Spaces s) : Spaces (s ++ "  ".toList) := by
  intro c mem
  rcases List.mem_append.mp mem with mem | mem
  · exact spaces c mem
  · simpa using mem

/-- The braces of a text. -/
def bracesOf (s : Str) : Str := s.filter fun c => c = '\x7b' ∨ c = '\x7d'

theorem bracesOf_append (s t : Str) : bracesOf (s ++ t) = bracesOf s ++ bracesOf t := List.filter_append _ _

theorem bracesOf_eq_nil {s : Str} (noOpen : '\x7b' ∉ s) (noClose : '\x7d' ∉ s) : bracesOf s = [] := by
  refine List.filter_eq_nil_iff.mpr fun c mem brace => ?_
  rcases of_decide_eq_true brace with rfl | rfl
  · exact noOpen mem
  · exact noClose mem

theorem Spaces.bracesOf {s : Str} (spaces : Spaces s) : bracesOf s = [] :=
  bracesOf_eq_nil (spaces.not_mem (by decide)) (spaces.not_mem (by decide))

theorem bracesOf_name (name : Name) : bracesOf name.chars = [] :=
  bracesOf_eq_nil (not_mem_name name rfl) (not_mem_name name rfl)

theorem bracesOf_rawValue (quoted : Bool) (v : Line) : bracesOf (rawValue quoted v) = bracesOf v.chars := by
  cases quoted with
  | false => rfl
  | true =>
    show bracesOf (['"'] ++ (v.chars ++ ['"'])) = _
    rw [bracesOf_append, bracesOf_append, show bracesOf ['"'] = [] from rfl, List.nil_append, List.append_nil]

/-- The text of entries has their braces. -/
theorem bracesOf_render : ∀ {indent : Str}, Spaces indent → ∀ es : List Entry,
    bracesOf (render indent es) = bracesOf (braced es)
  | _, _, [] => by rw [render, braced]
  | indent, spaces, .scalar name quoted v :: es => by
    rw [render, braced, Entry.render, Entry.braced, bracesOf_append, bracesOf_append _ (braced es),
      bracesOf_render spaces es]
    congr 1
    rw [bracesOf_append, bracesOf_append, bracesOf_append, bracesOf_append, spaces.bracesOf, bracesOf_name,
      bracesOf_rawValue, show bracesOf ": ".toList = [] from rfl, show bracesOf "\n".toList = [] from rfl]
    simp
  | indent, spaces, .message name sub :: es => by
    rw [render, braced, Entry.render, Entry.braced, bracesOf_append, bracesOf_append _ (braced es),
      bracesOf_render spaces es]
    congr 1
    rw [bracesOf_append, bracesOf_append, bracesOf_append, bracesOf_append, bracesOf_append, spaces.bracesOf,
      bracesOf_name, bracesOf_render spaces.deeper sub]
    show ['\x7b'] ++ bracesOf (braced sub) ++ [] ++ ['\x7d'] = bracesOf (['\x7b'] ++ (braced sub ++ ['\x7d']))
    rw [bracesOf_append, bracesOf_append, List.append_nil, List.append_assoc]
    rfl

theorem depth_render {indent : Str} (spaces : Spaces indent) (es : List Entry) (n : Nat) :
    depth '\x7b' '\x7d' n (render indent es) = depth '\x7b' '\x7d' n (braced es) := by
  rw [← depth_filter, ← depth_filter (s := braced es)]
  exact congrArg _ (bracesOf_render spaces es)

/-- The text of an entry has a colon or an opening brace before any closing one. -/
theorem render_head {indent : Str} (spaces : Spaces indent) (e : Entry) (es : List Entry) :
    ∃ front c behind, render indent (e :: es) = front ++ c :: behind ∧ '\x7d' ∉ front ++ [c] ∧
      (c = ':' ∨ c = '\x7b') := by
  have plain (name : Name) : '\x7d' ∉ indent ++ name.chars := by
    simp [spaces.not_mem (c := '\x7d') (by decide), not_mem_name name (c := '\x7d') rfl]
  cases e with
  | scalar name quoted v =>
    refine ⟨indent ++ name.chars, ':', ' ' :: (rawValue quoted v ++ "\n".toList ++ render indent es), ?_, ?_, .inl rfl⟩
    · rw [render, Entry.render]
      simp
    · simpa using plain name
  | message name sub =>
    refine ⟨indent ++ name.chars ++ [' '], '\x7b',
      " \n".toList ++ render (indent ++ "  ".toList) sub ++ indent ++ "\x7d\n".toList ++ render indent es, ?_, ?_, .inr rfl⟩
    · rw [render, Entry.render]
      simp
    · simpa using plain name

/-- No entry is before a closing brace without a colon and an opening brace before it. -/
theorem not_entry {indent rest front behind : Str} {es : List Entry} (spaces : Spaces indent)
    (same : render indent es ++ rest = front ++ '\x7d' :: behind) (colon : ':' ∉ front) (brace : '\x7b' ∉ front) :
    es = [] := by
  cases es with
  | nil => rfl
  | cons e es =>
    obtain ⟨first, c, tail, text, plain, marks⟩ := render_head spaces e es
    have whole : (first ++ [c]) ++ (tail ++ rest) = front ++ '\x7d' :: behind := by
      rw [← same, text]
      simp
    obtain ⟨w, rfl, -⟩ := cut_behind whole plain
    rcases marks with rfl | rfl
    · exact absurd (by simp) colon
    · exact absurd (by simp) brace

/-! ## Values -/

theorem trim_quotes (s : Str) : trim ('"' :: (s ++ ['"'])) = '"' :: (s ++ ['"']) := by
  show Text.strip isTrimmed ((['"'] ++ s) ++ '"' :: []) = _
  rw [Text.strip_append_cons (by decide)]
  rfl

/-- A value that is printed is read. -/
theorem fieldValue_rawValue {quoted : Bool} {v : Line}
    (literal : quoted = false → '"' ∉ v.chars ∧ trim v.chars = v.chars) : fieldValue (rawValue quoted v) = v.chars := by
  unfold fieldValue rawValue
  cases quoted with
  | false =>
    obtain ⟨plain, trimmed⟩ := literal rfl
    dsimp only
    rw [if_neg Bool.false_ne_true, trimmed, if_neg plain]
  | true =>
    dsimp only
    rw [if_pos rfl, trim_quotes, if_pos List.mem_cons_self, substr, List.drop_one, List.tail_cons, List.length_cons,
      List.length_append, List.length_singleton]
    exact List.take_left

/-- A value that is cut off is not what has been printed. -/
theorem fieldValue_cut {quoted : Bool} {v : Line} {w t : Str} (nonempty : v.chars ≠ [])
    (cut : rawValue quoted v = w ++ '\x7d' :: t) : fieldValue w ≠ v.chars := by
  intro same
  have shorter : (trim w).length ≤ w.length := (Text.strip_within isTrimmed w).length_le
  have most : (fieldValue w).length ≤ (trim w).length := by
    unfold fieldValue
    dsimp only
    split
    · rw [substr, List.length_take, List.length_drop]
      omega
    · exact le_rfl
  have some_ := List.length_pos_of_ne_nil nonempty
  rw [← same] at some_
  have lengths := congrArg List.length cut
  rw [List.length_append, List.length_cons] at lengths
  cases quoted with
  | false =>
    have whole : (rawValue false v).length = (fieldValue w).length := by rw [same]; rfl
    omega
  | true =>
    have whole : (rawValue true v).length = (fieldValue w).length + 2 := by
      rw [same]
      simp [rawValue]
    have quote : '"' ∈ trim w := by
      rw [mem_trim rfl]
      cases w with
      | nil => exact absurd (List.cons.inj cut).1 (by decide)
      | cons c w =>
        rw [(List.cons.inj cut).1]
        exact List.mem_cons_self
    have value : (fieldValue w).length ≤ (trim w).length - 2 := by
      unfold fieldValue
      dsimp only
      rw [if_pos quote, substr, List.length_take, List.length_drop]
      omega
    omega

/-! ## What follows the entries of a message -/

/-- The ends of the messages outside, with the entries that come behind each of them. -/
inductive Behind : Str → Prop where
  | done : Behind []
  | close {outer rest : Str} (spaces : Spaces outer) (es : List Entry) (behind : Behind rest) :
      Behind (outer ++ '\x7d' :: '\n' :: (render outer es ++ rest))

/-- The first closing brace ends its line, and so does the next one if there is no entry between them. -/
theorem Behind.newline {text : Str} (behind : Behind text) {front rest : Str} (cut : text = front ++ '\x7d' :: rest)
    (colon : ':' ∉ front) (brace : '\x7b' ∉ front) : ∃ tail, rest = '\n' :: tail := by
  induction behind generalizing front with
  | done => exact absurd cut (by simp)
  | @close outer rest' spaces es behind ih =>
    rcases cut_cases cut.symm (spaces.not_mem (c := '\x7d') (by decide)) with ⟨-, same⟩ | ⟨w, rfl, same⟩
    · exact ⟨_, same⟩
    · cases w with
      | nil => exact absurd (List.cons.inj same).1 (by decide)
      | cons c w =>
        obtain ⟨rfl, later⟩ := List.cons.inj same
        have colon' : ':' ∉ w := fun mem => colon (by simp [mem])
        have brace' : '\x7b' ∉ w := fun mem => brace (by simp [mem])
        have none := not_entry spaces later.symm colon' brace'
        rw [none, render, List.nil_append] at later
        exact ih later.symm colon' brace'

/-! ## Reading entries -/

theorem render_scalar (indent : Str) (name : Name) (quoted : Bool) (v : Line) (es : List Entry) (rest : Str) :
    render indent (.scalar name quoted v :: es) ++ rest =
      indent ++ (name.chars ++ (": ".toList ++ (rawValue quoted v ++ '\n' :: (render indent es ++ rest)))) := by
  rw [render, Entry.render]
  simp

theorem render_message (indent : Str) (name : Name) (sub es : List Entry) (rest : Str) :
    render indent (.message name sub :: es) ++ rest =
      indent ++ (name.chars ++ (" ".toList ++ '\x7b' :: (' ' :: '\n' :: render (indent ++ "  ".toList) sub ++
        (indent ++ '\x7d' :: '\n' :: (render indent es ++ rest))))) := by
  rw [render, Entry.render]
  simp

theorem depth_block {indent : Str} (spaces : Spaces indent) (sub : List Entry) (n : Nat) :
    depth '\x7b' '\x7d' n (' ' :: '\n' :: render indent sub) = depth '\x7b' '\x7d' n (braced sub) := by
  rw [← depth_render spaces]
  rfl

/-- What is behind the entries of a message: up to the end of its block, and after it. -/
theorem behind_block {indent rest text : Str} {es : List Entry} {log : Log} {n : Nat} (spaces : Spaces indent)
    (aligned : Aligned es log) (parses : Parses (render indent es ++ rest) log) (colon : ':' ∉ rest) (brace : '\x7b' ∉ rest)
    (last : n = 1 ∨ es = []) (whole : text = indent ++ '\x7d' :: '\n' :: (render indent es ++ rest)) :
    (':' ∉ text.take (blockEnd '\x7b' '\x7d' n text) ∧ '\x7b' ∉ text.take (blockEnd '\x7b' '\x7d' n text)) ∧
      Parses (text.drop (blockEnd '\x7b' '\x7d' n text + 2)) log := by
  have plain : ':' ∉ indent ∧ '\x7b' ∉ indent ∧ '\x7d' ∉ indent :=
    ⟨spaces.not_mem (by decide), spaces.not_mem (by decide), spaces.not_mem (by decide)⟩
  rcases last with rfl | rfl
  · have stop : blockEnd '\x7b' '\x7d' 1 text = indent.length := by
      rw [whole]
      exact blockEnd_append (depth_plain plain.2.1 plain.2.2)
    rw [stop, whole, List.take_left, List.drop_length_add_append]
    exact ⟨⟨plain.1, plain.2.1⟩, parses⟩
  · cases aligned
    rw [render, List.nil_append] at whole
    have colon' : ':' ∉ text := by simp [whole, plain.1, colon]
    have brace' : '\x7b' ∉ text := by simp [whole, plain.2.1, brace]
    refine ⟨⟨fun mem => colon' (List.mem_of_mem_take mem), fun mem => brace' (List.mem_of_mem_take mem)⟩, .done ?_⟩
    rw [getNextConf_eq_none]
    exact ⟨fun mem => colon' (List.mem_of_mem_drop mem), fun mem => brace' (List.mem_of_mem_drop mem)⟩

/-- **Entries whose braces match are read,** with nothing but the ends of messages behind them. -/
theorem parses_of_matched : ∀ (es : List Entry) {indent rest : Str}, Spaces indent → Proper es → Matched es →
    ':' ∉ rest → '\x7b' ∉ rest → ∃ log, Parses (render indent es ++ rest) log ∧ Aligned es log
  | [], indent, rest, _, _, _, colon, brace => by
    rw [render, List.nil_append]
    exact ⟨[], .done (getNextConf_eq_none.mpr ⟨colon, brace⟩), .nil⟩
  | .scalar name quoted v :: es, indent, rest, spaces, proper, matched, colon, brace => by
    rw [Proper] at proper
    rw [matched_scalar] at matched
    obtain ⟨-, literal, proper⟩ := proper
    obtain ⟨log, parses, aligned⟩ := parses_of_matched es spaces proper matched colon brace
    obtain ⟨left, step, same⟩ := getNextConf_field name spaces.blank (show '\n' ∉ rawValue quoted v from rawValue_oneLine)
      (.inr ⟨render indent es ++ rest, rfl⟩)
    rw [fieldValue_rawValue literal] at step
    refine ⟨(name.chars, .text v.chars) :: log, ?_, .cons ⟨rfl, by rw [Entry.Shown]⟩ aligned⟩
    rw [render_scalar]
    exact .field step (parses.trim same.symm)
  | .message name sub :: es, indent, rest, spaces, proper, matched, colon, brace => by
    rw [Proper] at proper
    rw [matched_message] at matched
    obtain ⟨proper_sub, proper⟩ := proper
    obtain ⟨matched_sub, matched, open_⟩ := matched
    obtain ⟨log, parses, aligned⟩ := parses_of_matched es spaces proper matched colon brace
    obtain ⟨n, balance, last⟩ : ∃ n, depth '\x7b' '\x7d' 1 (braced sub) = some n ∧ (n = 1 ∨ es = []) := by
      rcases open_ with one | ⟨rfl, n, some_⟩
      · exact ⟨1, one, .inl rfl⟩
      · exact ⟨n, some_, .inr rfl⟩
    obtain ⟨⟨colon', brace'⟩, outer⟩ := behind_block spaces aligned parses colon brace last rfl
    obtain ⟨inner, parses_sub, aligned_sub⟩ := parses_of_matched sub spaces.deeper proper_sub matched_sub colon' brace'
    obtain ⟨o, built, represents⟩ := aligned_sub.object proper_sub
    obtain ⟨value, left, step, same, same'⟩ := getNextConf_message name spaces.blank
      (' ' :: '\n' :: render (indent ++ "  ".toList) sub ++ (indent ++ '\x7d' :: '\n' :: (render indent es ++ rest)))
    rw [blockEnd_append ((depth_block spaces.deeper sub 1).trans balance)] at same same'
    rw [List.take_length_add_append] at same
    rw [Nat.add_assoc, List.drop_length_add_append] at same'
    refine ⟨(name.chars, .object o) :: log, ?_, .cons ⟨rfl, ?_⟩ aligned⟩
    · rw [render_message]
      refine .message step (parses_sub.trim ?_) built (outer.trim same'.symm)
      rw [same]
      exact (trim_blank_left (w := [' ', '\n']) (by simp [Blank, isTrimmed_space, isTrimmed_newline]) _).symm
    · rw [Entry.Shown]
      exact ⟨o, rfl, represents⟩

/-! ## What is read of entries -/

/-- What describes the entries describes the first value, and the others. -/
theorem peel_entry {e : Entry} {es : List Entry} {v : JsValue} {log : Log} (proper : Proper (e :: es)) (read : v.Read)
    (truthy : v.truthy = true) (shows : ∀ key, Shows (shown key (e :: es)) (gathered (vals key ((e.name.chars, v) :: log)))) :
    e.Shown v ∧ ∀ key, Shows (shown key es) (gathered (vals key log)) := by
  have peel : ∀ key, (e.name.chars = key → e.Shown v) ∧ Shows (shown key es) (gathered (vals key log)) := by
    intro key
    have here := shows key
    have plain : ∀ p ∈ shown key (e :: es), Plain p := shown_plain proper
    rw [shown_cons] at here plain
    rw [vals_cons] at here
    split at here
    · next same =>
      rw [if_pos same] at plain
      obtain ⟨first, rest⟩ := here.peel plain read truthy
      exact ⟨fun _ => first, rest⟩
    · next other => exact ⟨fun same => absurd same other, here⟩
  exact ⟨(peel e.name.chars).1 rfl, fun key => (peel key).2⟩

/-- Nothing is read of a text that shows no entries. -/
theorem plain_of_shows_nil {text : Str} {log : Log} (parses : Parses text log)
    (shows : ∀ key, Shows (shown key []) (gathered (vals key log))) : ':' ∉ text ∧ '\x7b' ∉ text := by
  cases log with
  | nil =>
    cases parses with
    | done step => exact getNextConf_eq_none.mp step
  | cons p log =>
    have none : vals p.1 (p :: log) = [] := gathered_eq_none.mp (shows p.1)
    rw [vals_cons, if_pos rfl] at none
    cases none

/-- Where the block of a message ends: at the end of its entries, or behind all entries of the message it is in. -/
theorem block_end {indent rest front behind : Str} {es : List Entry} {n : Nat} (spaces : Spaces indent) (outside : Behind rest)
    (whole : indent ++ '\x7d' :: '\n' :: (render indent es ++ rest) = front ++ '\x7d' :: behind) (colon : ':' ∉ front)
    (brace : '\x7b' ∉ front) (one : depth '\x7b' '\x7d' n front = some 1) :
    (n = 1 ∧ front = indent ∧ behind = '\n' :: (render indent es ++ rest)) ∨
      es = [] ∧ ∃ inner tail, front = indent ++ '\x7d' :: '\n' :: inner ∧ rest = inner ++ '\x7d' :: behind ∧
        behind = '\n' :: tail := by
  have plain : '\x7b' ∉ indent ∧ '\x7d' ∉ indent := ⟨spaces.not_mem (by decide), spaces.not_mem (by decide)⟩
  rcases cut_cases whole.symm plain.2 with ⟨rfl, same⟩ | ⟨w, rfl, same⟩
  · left
    rw [depth_plain plain.1 plain.2] at one
    exact ⟨Option.some.inj one, rfl, same⟩
  · right
    cases w with
    | nil => exact absurd (List.cons.inj same).1 (by decide)
    | cons c w =>
      obtain ⟨rfl, later⟩ := List.cons.inj same
      have colon' : ':' ∉ w := fun mem => colon (by simp [mem])
      have brace' : '\x7b' ∉ w := fun mem => brace (by simp [mem])
      obtain rfl := not_entry spaces later.symm colon' brace'
      rw [render, List.nil_append] at later
      obtain ⟨tail, newline⟩ := outside.newline later.symm colon' brace'
      exact ⟨rfl, w, tail, rfl, later.symm, newline⟩

/-- Entries of which none begins have no text. -/
theorem not_entry_plain {indent rest : Str} {es : List Entry} (spaces : Spaces indent) (colon : ':' ∉ render indent es ++ rest)
    (brace : '\x7b' ∉ render indent es ++ rest) : es = [] := by
  cases es with
  | nil => rfl
  | cons e es =>
    obtain ⟨front, c, behind, text, -, rfl | rfl⟩ := render_head spaces e es
    · exact absurd (by simp [text]) colon
    · exact absurd (by simp [text]) brace

/-- A line that is cut is cut within its value. -/
theorem cut_value {raw w t : Str} (cut : raw ++ ['\n'] = w ++ '\x7d' :: t) : ∃ t', raw = w ++ '\x7d' :: t' := by
  rcases List.append_eq_append_iff.mp cut with ⟨a, rfl, same⟩ | ⟨a, rfl, same⟩
  · cases a with
    | nil => exact absurd (List.cons.inj same).1 (by decide)
    | cons b a => exact absurd (List.cons.inj same).2 (by simp)
  · cases a with
    | nil => exact absurd (List.cons.inj same).1 (by decide)
    | cons b a => exact ⟨a, by rw [(List.cons.inj same).1]⟩

/-- Entries of which a text is read as an object that represents them: their braces match, and nothing is read behind them. -/
def Settles (es : List Entry) : Prop :=
  ∀ {indent rest text : Str} {d : Nat} {log : Log}, Spaces indent → Proper es → Behind rest → 1 ≤ d →
    Cut '\x7b' '\x7d' d text (render indent es ++ rest) → Parses text log →
      (∀ key, Shows (shown key es) (gathered (vals key log))) →
        Matched es ∧ ∃ left, text = render indent es ++ left ∧ ':' ∉ left ∧ '\x7b' ∉ left

theorem Settles.nil : Settles [] := by
  intro indent rest text d log _ _ _ _ _ parses shows
  refine ⟨by rw [Matched]; trivial, text, by rw [render, List.nil_append], plain_of_shows_nil parses shows⟩

theorem Settles.scalar {name : Name} {quoted : Bool} {v : Line} {es : List Entry} (settles : Settles es) :
    Settles (.scalar name quoted v :: es) := by
  intro indent rest text d log spaces proper outside pos cut parses shows
  have line : render indent (.scalar name quoted v :: es) ++ rest =
      (indent ++ name.chars ++ ": ".toList) ++ ((rawValue quoted v ++ ['\n']) ++ (render indent es ++ rest)) := by
    rw [render_scalar]
    simp
  have proper' := proper
  rw [Proper] at proper
  obtain ⟨nonempty, literal, proper⟩ := proper
  have plain : '\x7d' ∉ indent ++ name.chars ++ ": ".toList := by
    simp [spaces.not_mem (c := '\x7d') (by decide), not_mem_name name (c := '\x7d') rfl]
  have open_ : '\x7b' ∉ indent ++ name.chars ++ ": ".toList := by
    simp [spaces.not_mem (c := '\x7b') (by decide), not_mem_name name (c := '\x7b') rfl]
  rw [line] at cut
  obtain ⟨line_end, rfl, cut_end⟩ := cut.right pos plain (depth_plain open_ plain)
  rcases cut_end.split pos with ⟨tail, k, rfl, pos', -, cut_tail⟩ | ⟨t, short⟩
  · obtain ⟨left, step, same⟩ := getNextConf_field name spaces.blank
      (show '\n' ∉ rawValue quoted v from rawValue_oneLine) (.inr ⟨tail, rfl⟩)
    rw [fieldValue_rawValue literal] at step
    have shape : indent ++ name.chars ++ ": ".toList ++ ((rawValue quoted v ++ ['\n']) ++ tail) =
        indent ++ (name.chars ++ (": ".toList ++ (rawValue quoted v ++ '\n' :: tail))) := by simp
    rw [shape] at parses ⊢
    obtain ⟨log, rfl, parses_tail⟩ := parses.of_field step
    obtain ⟨-, shows_tail⟩ := peel_entry proper' (.inl ⟨_, rfl⟩) (by simpa [JsValue.truthy] using nonempty) shows
    obtain ⟨matched, left, rfl, plain_left⟩ :=
      settles spaces proper outside pos' cut_tail (parses_tail.trim same) shows_tail
    exact ⟨matched_scalar.mpr matched, left, (render_scalar ..).symm, plain_left⟩
  · -- the text ends within the value, and then another one is read
    obtain ⟨t, within⟩ := cut_value short
    have oneLine : '\n' ∉ line_end := by
      intro mem
      have whole : '\n' ∈ rawValue quoted v := by
        rw [within]
        exact List.mem_append_left _ mem
      exact rawValue_oneLine whole
    obtain ⟨left, step, same⟩ := getNextConf_field name spaces.blank oneLine (.inl rfl)
    have shape : indent ++ name.chars ++ ": ".toList ++ line_end =
        indent ++ (name.chars ++ (": ".toList ++ (line_end ++ []))) := by simp
    rw [shape] at parses
    obtain ⟨log, rfl, parses_left⟩ := parses.of_field step
    obtain rfl := (parses_left.trim same).of_none rfl
    have single := shows name.chars
    have named : (Entry.scalar name quoted v).name.chars = name.chars := rfl
    rw [shown_cons, if_pos named, vals_cons, if_pos rfl] at single
    have value := Shows.single (.inl ⟨_, rfl⟩) single
    rw [Entry.Shown] at value
    exact absurd (JsValue.text.inj value) (fieldValue_cut nonempty within)

theorem Settles.message {name : Name} {sub es : List Entry} (below : Settles sub) (settles : Settles es) :
    Settles (.message name sub :: es) := by
  intro indent rest text d log spaces proper outside pos cut parses shows
  have proper' := proper
  rw [Proper] at proper
  obtain ⟨proper_sub, proper⟩ := proper
  have line : render indent (.message name sub :: es) ++ rest =
      (indent ++ name.chars ++ " ".toList ++ ['\x7b']) ++ (' ' :: '\n' :: render (indent ++ "  ".toList) sub ++
        (indent ++ '\x7d' :: '\n' :: (render indent es ++ rest))) := by
    rw [render_message]
    simp
  have plain : '\x7d' ∉ indent ++ name.chars ++ " ".toList ++ ['\x7b'] := by
    simp [spaces.not_mem (c := '\x7d') (by decide), not_mem_name name (c := '\x7d') rfl]
  have opened : depth '\x7b' '\x7d' d (indent ++ name.chars ++ " ".toList ++ ['\x7b']) = some (d + 1) := by
    rw [depth_append_some (depth_plain (n := d) ?_ ?_)]
    · rfl
    · simp [spaces.not_mem (c := '\x7b') (by decide), not_mem_name name (c := '\x7b') rfl]
    · simp [spaces.not_mem (c := '\x7d') (by decide), not_mem_name name (c := '\x7d') rfl]
  rw [line] at cut
  obtain ⟨block, rfl, cut_block⟩ := cut.right pos plain opened
  have shape : indent ++ name.chars ++ " ".toList ++ ['\x7b'] ++ block =
      indent ++ (name.chars ++ (" ".toList ++ '\x7b' :: block)) := by simp
  rw [shape] at parses ⊢
  obtain ⟨value, left, step, same, same'⟩ := getNextConf_message name spaces.blank block
  obtain ⟨inner, o, log, rfl, parses_sub, built, parses_left⟩ := parses.of_message step
  obtain ⟨shows_sub, shows_left⟩ := peel_entry proper' (.inr ⟨o, rfl⟩) rfl shows
  rw [Entry.Shown] at shows_sub
  obtain ⟨o', same_o, represents⟩ := shows_sub
  obtain rfl := JsValue.object.inj same_o
  -- the entries of the message are read from a text that is cut in its own block
  have read {part : Str} (cut_part : Cut '\x7b' '\x7d' 1 part (' ' :: '\n' :: render (indent ++ "  ".toList) sub ++
        (indent ++ '\x7d' :: '\n' :: (render indent es ++ rest)))) (trimmed : trim value = trim part) :
      Matched sub ∧ ∃ front, part = ' ' :: '\n' :: render (indent ++ "  ".toList) sub ++ front ∧ ':' ∉ front ∧ '\x7b' ∉ front := by
    obtain ⟨part_sub, rfl, cut_sub⟩ := Cut.right (l := [' ', '\n']) le_rfl cut_part (by simp) rfl
    have parses_part : Parses part_sub inner :=
      parses_sub.trim
        (trimmed.trans (trim_blank_left (w := [' ', '\n']) (by simp [Blank, isTrimmed_space, isTrimmed_newline]) _))
    obtain ⟨matched, front, rfl, colon, brace⟩ := below spaces.deeper proper_sub (.close spaces es outside) le_rfl
      cut_sub parses_part ((represents_iff built).mp represents)
    exact ⟨matched, front, rfl, colon, brace⟩
  rcases cut_block.block (by decide) pos with ⟨u, v, w, rfl, whole, inside, stop, cut_v⟩ | ⟨rfl, m, inside, stop⟩
  · rw [stop, List.take_left] at same
    rw [stop, List.drop_length_add_append] at same'
    obtain ⟨matched_sub, front, rfl, colon, brace⟩ := read (.inr ⟨w, whole, inside⟩) same
    obtain ⟨n, balance, one⟩ := depth_left inside
    rw [depth_block spaces.deeper] at balance
    rw [List.append_assoc] at whole
    rcases block_end spaces outside (List.append_cancel_left whole) colon brace one with
      ⟨rfl, rfl, rfl⟩ | ⟨rfl, behind, tail, rfl, rfl, rfl⟩
    · obtain ⟨rest_v, rfl, cut_rest⟩ := Cut.right (l := ['\n']) pos cut_v (by simp) rfl
      obtain ⟨matched, left_es, rfl, plain_left⟩ :=
        settles spaces proper outside pos cut_rest (parses_left.trim same') shows_left
      refine ⟨?_, left_es, ?_, plain_left⟩
      · exact matched_message.mpr ⟨matched_sub, matched, .inl balance⟩
      · rw [render_message]
        simp
    · obtain ⟨rest_v, rfl, -⟩ := Cut.right (l := ['\n']) pos cut_v (by simp) rfl
      obtain ⟨colon', brace'⟩ := plain_of_shows_nil (parses_left.trim same') shows_left
      refine ⟨?_, behind ++ '\x7d' :: '\n' :: rest_v, ?_, ?_, ?_⟩
      · rw [matched_message, Matched]
        exact ⟨matched_sub, trivial, .inr ⟨rfl, n, balance⟩⟩
      · rw [render_message, render]
        simp
      · simp only [List.mem_append, List.mem_cons, not_or] at colon ⊢
        exact ⟨colon.2.2.2, by decide, by decide, colon'⟩
      · simp only [List.mem_append, List.mem_cons, not_or] at brace ⊢
        exact ⟨brace.2.2.2, by decide, by decide, brace'⟩
  · rw [stop, List.take_length] at same
    obtain ⟨matched_sub, front, text, colon, brace⟩ := read (.inl rfl) same
    obtain ⟨n, balance, -⟩ := depth_left inside
    rw [depth_block spaces.deeper] at balance
    obtain rfl := List.append_cancel_left text
    simp only [List.mem_append, List.mem_cons, not_or] at colon brace
    obtain rfl := not_entry_plain spaces (by simpa using colon.2.2.2) (by simpa using brace.2.2.2)
    refine ⟨?_, rest, (render_message ..).symm, colon.2.2.2.2, brace.2.2.2.2⟩
    rw [matched_message, Matched]
    exact ⟨matched_sub, trivial, .inr ⟨rfl, n, balance⟩⟩

/-- **Entries that are read back have matching braces.** -/
theorem matched_of_parses : ∀ es : List Entry, Settles es
  | [] => Settles.nil
  | .scalar _ _ _ :: es => Settles.scalar (matched_of_parses es)
  | .message _ sub :: es => Settles.message (matched_of_parses sub) (matched_of_parses es)

/-! ## Messages -/

/-- Values of fields that are no strings are literals: no quotation mark is in them, and no white space at their ends. -/
def Literals (pkg : Package) (_ : MessageDef) (fields : List Field) : Prop :=
  ∀ field ∈ fields, ¬ pkg.isMessage field.d → isQuoted pkg field.d = false →
    ∀ v ∈ field.value, '"' ∉ v.chars ∧ trim v.chars = v.chars

variable {pkg : Package} {md : MessageDef} {fields : List Field}

theorem proper_append {es es' : List Entry} (h : Proper es) (h' : Proper es') : Proper (es ++ es') := by
  induction es with
  | nil => exact h'
  | cons e es ih =>
    cases e with
    | scalar name quoted v =>
      rw [Proper] at h
      rw [List.cons_append, Proper]
      exact ⟨h.1, h.2.1, ih h.2.2⟩
    | message name sub =>
      rw [Proper] at h
      rw [List.cons_append, Proper]
      exact ⟨h.1, ih h.2⟩

theorem proper_scalarEntry {d : FieldDef} {value : Option Line}
    (literal : isQuoted pkg d = false → ∀ v ∈ value, '"' ∉ v.chars ∧ trim v.chars = v.chars) :
    Proper (scalarEntry pkg d value) := by
  unfold scalarEntry
  split
  · next v shown =>
    rw [printed, Option.filter_eq_some_iff, decide_eq_true_eq] at shown
    rw [Proper, Proper]
    exact ⟨shown.2.1, fun plain => literal plain v shown.1, trivial⟩
  · rw [Proper]
    trivial

theorem proper_entries (literals : Everywhere pkg (Literals pkg) md fields) : Proper (entries pkg fields) := by
  induction literals with
  | @intro md fields here below ih =>
    have each : ∀ field ∈ fields, Proper (field.entry pkg) := by
      intro field mem
      have literal := here field mem
      have sub := ih field mem
      rcases field with ⟨d, value, none | sub'⟩
      · rw [Field.entry]
        split
        · rw [Proper]
          trivial
        · next scalar => exact proper_scalarEntry (literal scalar)
      · rw [Field.entry]
        split
        · next message =>
          obtain ⟨md', found⟩ := Option.isSome_iff_exists.mp message
          rw [Proper, Proper]
          exact ⟨sub sub' rfl md' found, trivial⟩
        · next scalar => exact proper_scalarEntry (literal scalar)
    clear here below ih
    induction fields with
    | nil =>
      rw [entries, Proper]
      trivial
    | cons field fields ih =>
      rw [entries]
      exact proper_append (each field List.mem_cons_self) (ih fun f mem => each f (List.mem_cons_of_mem _ mem))

theorem toConf_eq_render : toConf pkg [] fields = render [] (entries pkg fields) ++ [] := by
  rw [toConf_eq, List.append_nil]

/-- What `toConf` prints, `parseMessage` reads back: every run with enough fuel ends with an object that represents it. -/
def ReadsBack (pkg : Package) (fields : List Field) : Prop :=
  ∃ o, (∀ fuel, (toConf pkg [] fields).length < fuel → parseMessage fuel [] (toConf pkg [] fields) = .ok o) ∧
    Represents o (entries pkg fields)

theorem matched_of_readsBack (literals : Everywhere pkg (Literals pkg) md fields) (reads : ReadsBack pkg fields) :
    Matched (entries pkg fields) := by
  obtain ⟨o, run, represents⟩ := reads
  obtain ⟨log, parses, built⟩ := (parseMessage_ok_iff (Nat.lt_succ_self _)).mp (run _ (Nat.lt_succ_self _))
  rw [toConf_eq_render] at parses
  have spaces : Spaces [] := fun c mem => by cases mem
  exact (matched_of_parses _ spaces (proper_entries literals) .done le_rfl (.inl rfl) parses
    ((represents_iff built).mp represents)).1

/-- **The text of a message is read back** exactly if the braces of its values match. -/
theorem parseMessage_toConf_iff (literals : Everywhere pkg (Literals pkg) md fields) :
    ReadsBack pkg fields ↔ Matched (entries pkg fields) := by
  constructor
  · exact matched_of_readsBack literals
  · intro matched
    have spaces : Spaces [] := fun c mem => by cases mem
    have proper := proper_entries literals
    obtain ⟨log, parses, aligned⟩ := parses_of_matched _ spaces proper matched (show ':' ∉ [] by simp) (by simp)
    rw [← toConf_eq_render] at parses
    obtain ⟨o, built, represents⟩ := aligned.object proper
    exact ⟨o, fun fuel enough => (parseMessage_ok_iff enough).mpr ⟨log, parses, built⟩, represents⟩

/-- Values that are in quotation marks or literals, in a message and the messages below it. -/
theorem literals_below (here : ∀ field ∈ fields, ∀ v ∈ field.value,
      isQuoted pkg field.d ∨ '"' ∉ v.chars ∧ trim v.chars = v.chars)
    (below : ∀ field ∈ fields, ∀ sub ∈ field.message, ∀ f ∈ sub, f.message = none ∧
      ∀ v ∈ f.value, isQuoted pkg f.d ∨ '"' ∉ v.chars ∧ trim v.chars = v.chars) :
    Everywhere pkg (Literals pkg) md fields := by
  refine everywhere_below (fun field mem _ plain v value => ?_) fun field mem sub present => ⟨fun f there => ?_, ?_⟩
  · exact (here field mem v value).resolve_left (by simp [plain])
  · exact (below field mem sub present f there).1
  · intro md' _ f there _ plain v value
    exact ((below field mem sub present f there).2 v value).resolve_left (by simp [plain])

/-- Two layers; no brace closes the first one, and one is left open in the second. -/
def twoLayers : List Field :=
  fill "layer" [
    (none, some (fill "name" [(some ⟨['\x7b', 'a', '\x7d'], by decide⟩, none)]
      (fill "srclayers" [(some ⟨['b', ':'], by decide⟩, none), (some ⟨['"', 'c'], by decide⟩, none)] (newMessage layerProto)))),
    (none, some (fill "name" [(some ⟨['\x7b', 'd'], by decide⟩, none)] (newMessage layerProto)))] (newMessage netProto)

theorem twoLayers_readsBack : ReadsBack packsinga twoLayers := by
  have literals : Everywhere packsinga (Literals packsinga) netProto twoLayers :=
    literals_below (by decide +kernel) (by decide +kernel)
  exact (parseMessage_toConf_iff literals).mpr (by decide +kernel)

/-- A job whose workspace has a closing brace in its name. -/
def braceJob : List Field :=
  fill "cluster" [(none, some (fill "workspace" [(some ⟨['a', '\x7d', 'b'], by decide⟩, none)] (newMessage clusterProto)))]
    (newMessage jobProto)

theorem braceJob_not_readsBack : Typed packsinga jobProto braceJob ∧ ¬ ReadsBack packsinga braceJob := by
  have below : ∀ field ∈ braceJob, ∀ sub ∈ field.message, ∀ f ∈ sub, f.message = none ∧
      ∀ md ∈ packsinga.messageDef field.d.type, f.d ∈ md.fields := by decide +kernel
  have listed : OfDef packsinga jobProto braceJob := by
    unfold OfDef
    decide +kernel
  constructor
  · refine ⟨by decide +kernel, everywhere_below listed fun field mem sub present => ⟨fun f there => ?_, ?_⟩⟩
    · exact (below field mem sub present f there).1
    · intro md found f there
      obtain ⟨leaf, inner⟩ := below field mem sub present f there
      refine ⟨inner md found, fun some_ => ?_⟩
      rw [leaf] at some_
      cases some_
  · intro reads
    have literals : Everywhere packsinga (Literals packsinga) jobProto braceJob :=
      literals_below (by decide +kernel) (by decide +kernel)
    exact absurd (matched_of_readsBack literals reads) (by decide +kernel)

end Singa.Web
