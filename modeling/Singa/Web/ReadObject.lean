import Singa.Web.ConfText
import Singa.Web.ReadConf

/-!
# The object that is read from a configuration

`addField` makes an array of the values of one key. What an object is to show for
the entries of a text is compared with the values that have been added to it.
-/

namespace Singa.Web
set_option autoImplicit false

/-! ## What an object represents -/

/-- A property for values that are described one by one: a single value, or an array in order. -/
def Shows : List (JsValue → Prop) → Option JsValue → Prop
  | [], w => w = none
  | [p], w => ∃ v, w = some v ∧ p v
  | ps, w => ∃ vs, w = some (.array vs) ∧ List.Forall₂ (fun p v => p v) ps vs

mutual

/-- The value of an entry. -/
def Entry.Shown : Entry → JsValue → Prop
  | .scalar _ _ v => fun w => w = .text v.chars
  | .message _ es => fun w => ∃ o, w = .object o ∧ ∀ key, Shows (shown key es) (o.lookup key)

/-- The values of the entries of one name, in order. -/
def shown (key : Str) : List Entry → List (JsValue → Prop)
  | [] => []
  | e :: es => if e.name.chars = key then e.Shown :: shown key es else shown key es

end

/-- An object represents entries: every name has its value, or an array of its values, and nothing else is there. -/
def Represents (o : JsObject) (es : List Entry) : Prop := ∀ key, Shows (shown key es) (o.lookup key)

/-- Values are there, and values that are not in quotation marks are no strings. -/
def Proper : List Entry → Prop
  | [] => True
  | .scalar _ quoted v :: es => v.chars ≠ [] ∧ (quoted = false → '"' ∉ v.chars ∧ trim v.chars = v.chars) ∧ Proper es
  | .message _ sub :: es => Proper sub ∧ Proper es

/-! ## Gathering values -/

/-- A value that is read: a text or an object. -/
def JsValue.Read (v : JsValue) : Prop := (∃ s, v = .text s) ∨ ∃ o, v = .object o

/-- What a property is after another value has been added. -/
def join : Option JsValue → JsValue → JsValue
  | none, v => v
  | some (.array items), v => .array (items ++ [v])
  | some old, v => if old.truthy then .array [old, v] else v

/-- What a property is after more values have been added. -/
def gatherOn (old : Option JsValue) (vs : List JsValue) : Option JsValue := vs.foldl (fun old v => some (join old v)) old

/-- What a property is after all values have been added. -/
def gathered (vs : List JsValue) : Option JsValue := gatherOn none vs

/-- The values of one key. -/
def vals (key : Str) (log : Log) : List JsValue := (log.filter fun p => p.1 = key).map Prod.snd

theorem vals_cons (key : Str) (p : Str × JsValue) (log : Log) :
    vals key (p :: log) = if p.1 = key then p.2 :: vals key log else vals key log := by
  unfold vals
  rw [List.filter_cons]
  by_cases here : p.1 = key <;> simp [here]

theorem lookup_setProp (o : JsObject) (key : Str) (v : JsValue) (key' : Str) :
    (setProp o key v).lookup key' = if key' = key then some v else o.lookup key' := by
  induction o with
  | nil =>
    rw [setProp, List.lookup_cons]
    by_cases same : key' = key
    · rw [if_pos same, beq_iff_eq.mpr same]
    · rw [if_neg same, beq_false_of_ne same]
  | cons p o ih =>
    obtain ⟨k, w⟩ := p
    rw [setProp]
    by_cases here : k = key
    · rw [if_pos here, List.lookup_cons, List.lookup_cons, here]
      by_cases same : key' = key
      · rw [if_pos same, beq_iff_eq.mpr same]
      · rw [if_neg same, beq_false_of_ne same]
    · rw [if_neg here, List.lookup_cons, List.lookup_cons, ih]
      by_cases first : key' = k
      · have other : key' ≠ key := first ▸ here
        rw [beq_iff_eq.mpr first, if_neg other, if_neg other]
      · rw [beq_false_of_ne first]

theorem join_other {old : JsValue} (single : ∀ items, old ≠ .array items) (v : JsValue) :
    join (some old) v = if old.truthy then .array [old, v] else v := by
  cases old with
  | array items => exact absurd rfl (single items)
  | _ => rfl

/-- What `addField` does for a value that is there and no array. -/
theorem addField_other {result : JsObject} {key : Str} {old v : JsValue} (found : result.lookup key = some old)
    (single : ∀ items, old ≠ .array items) :
    addField result key v =
      if old.truthy then
        if old.hasPush then .error .typeError
        else if key = ['_', '_', 'p', 'r', 'o', 't', 'o', '_', '_'] then .error .prototype
        else .ok (setProp result key (.array [old, v]))
      else .ok (setProp result key v) := by
  unfold addField
  rw [found]
  cases old with
  | array items => exact absurd rfl (single items)
  | _ => rfl

/-- A field is added, unless a property `push` is in the way. -/
theorem addField_own {result : JsObject} {key : Str} {v : JsValue} (own : key ∉ objectPrototype)
    (noPush : ∀ old, result.lookup key = some old → old.hasPush = false) :
    addField result key v = .ok (setProp result key (join (result.lookup key) v)) := by
  have proto : key ≠ ['_', '_', 'p', 'r', 'o', 't', 'o', '_', '_'] := by
    rintro rfl
    exact own (by decide)
  cases found : result.lookup key with
  | none =>
    unfold addField
    rw [found]
    dsimp only
    rw [if_neg own]
    rfl
  | some old =>
    have other (single : ∀ items, old ≠ .array items) :
        addField result key v = .ok (setProp result key (join (some old) v)) := by
      rw [addField_other found single, join_other single, noPush old found, if_neg Bool.false_ne_true, if_neg proto]
      split <;> rfl
    cases old with
    | array items =>
      unfold addField
      rw [found]
      rfl
    | _ => exact other nofun

/-- A field that has been added is there, and others are as before. -/
theorem addField_ok {result result' : JsObject} {key : Str} {v : JsValue} (h : addField result key v = .ok result') :
    ∃ w, result' = setProp result key w ∧ (key ∉ objectPrototype → w = join (result.lookup key) v) := by
  cases found : result.lookup key with
  | none =>
    unfold addField at h
    rw [found] at h
    dsimp only at h
    by_cases inherits : key ∈ objectPrototype
    · rw [if_pos inherits] at h
      simp only [JsValue.truthy, if_true, JsValue.hasPush, Bool.false_eq_true, if_false] at h
      split at h
      · cases h
      · cases h
        exact ⟨_, rfl, fun own => absurd inherits own⟩
    · rw [if_neg inherits] at h
      cases h
      exact ⟨_, rfl, fun _ => rfl⟩
  | some old =>
    have other (single : ∀ items, old ≠ .array items) : ∃ w, result' = setProp result key w ∧ w = join (some old) v := by
      rw [addField_other found single] at h
      rw [join_other single]
      split at h
      · rw [if_pos ‹_›]
        split at h
        · cases h
        · split at h
          · cases h
          · cases h
            exact ⟨_, rfl, rfl⟩
      · rw [if_neg ‹_›]
        cases h
        exact ⟨_, rfl, rfl⟩
    cases old with
    | array items =>
      unfold addField at h
      rw [found] at h
      cases h
      exact ⟨_, rfl, fun _ => rfl⟩
    | _ =>
      obtain ⟨w, same, joined⟩ := other nofun
      exact ⟨w, same, fun _ => joined⟩

theorem addAll_cons {result o : JsObject} {p : Str × JsValue} {log : Log} :
    addAll result (p :: log) = .ok o ↔ ∃ result', addField result p.1 p.2 = .ok result' ∧ addAll result' log = .ok o :=
  Run.do_ok

theorem addAll_lookup {result o : JsObject} {log : Log} (h : addAll result log = .ok o) {key : Str}
    (own : key ∈ objectPrototype → vals key log = []) : o.lookup key = gatherOn (result.lookup key) (vals key log) := by
  induction log generalizing result with
  | nil =>
    cases h
    rfl
  | cons p log ih =>
    obtain ⟨result', added, rest⟩ := addAll_cons.mp h
    obtain ⟨w, rfl, joined⟩ := addField_ok added
    rw [vals_cons] at own ⊢
    by_cases here : p.1 = key
    · rw [if_pos here] at own ⊢
      have mine : key ∉ objectPrototype := fun inherits => List.cons_ne_nil _ _ (own inherits)
      rw [ih rest fun inherits => absurd inherits mine, lookup_setProp, if_pos here.symm, joined (here ▸ mine), here]
      rfl
    · rw [if_neg here] at own ⊢
      rw [ih rest own, lookup_setProp, if_neg (Ne.symm here)]

/-- A property that is not there has never been added. -/
theorem addAll_none {result o : JsObject} {log : Log} (h : addAll result log = .ok o) {key : Str}
    (none : o.lookup key = none) : result.lookup key = Option.none ∧ vals key log = [] := by
  induction log generalizing result with
  | nil =>
    cases h
    exact ⟨none, rfl⟩
  | cons p log ih =>
    obtain ⟨result', added, rest⟩ := addAll_cons.mp h
    obtain ⟨w, rfl, -⟩ := addField_ok added
    obtain ⟨before, behind⟩ := ih rest
    rw [lookup_setProp] at before
    by_cases here : key = p.1
    · rw [if_pos here] at before
      cases before
    · rw [if_neg here] at before
      rw [vals_cons, if_neg (Ne.symm here)]
      exact ⟨before, behind⟩

theorem join_hasPush {old : Option JsValue} {v : JsValue} (h : v.hasPush = false) : (join old v).hasPush = false := by
  unfold join
  split
  · exact h
  · rfl
  · split
    · rfl
    · exact h

/-- All fields are added if no property `push` is in the way. -/
theorem addAll_total {log : Log} (own : ∀ p ∈ log, p.1 ∉ objectPrototype ∧ p.2.hasPush = false) {result : JsObject}
    (noPush : ∀ key old, result.lookup key = some old → old.hasPush = false) : ∃ o, addAll result log = .ok o := by
  induction log generalizing result with
  | nil => exact ⟨result, rfl⟩
  | cons p log ih =>
    obtain ⟨mine, plain⟩ := own p List.mem_cons_self
    have next : ∀ key old, (setProp result p.1 (join (result.lookup p.1) p.2)).lookup key = some old →
        old.hasPush = false := by
      intro key old found
      rw [lookup_setProp] at found
      split at found
      · cases found
        exact join_hasPush plain
      · exact noPush key old found
    obtain ⟨o, rest⟩ := ih (fun q mem => own q (List.mem_cons_of_mem p mem)) next
    exact ⟨o, addAll_cons.mpr ⟨_, addField_own mine (noPush p.1), rest⟩⟩

/-! ## Arrays -/

theorem gatherOn_array (items vs : List JsValue) : gatherOn (some (.array items)) vs = some (.array (items ++ vs)) := by
  induction vs generalizing items with
  | nil =>
    rw [List.append_nil]
    rfl
  | cons v vs ih =>
    show gatherOn (some (.array (items ++ [v]))) vs = _
    rw [ih, List.append_assoc]
    rfl

theorem JsValue.Read.not_array {v : JsValue} (read : v.Read) {items : List JsValue} : v ≠ .array items := by
  rintro rfl
  rcases read with ⟨s, same⟩ | ⟨o, same⟩ <;> cases same

theorem gathered_two {v w : JsValue} (read : v.Read) (truthy : v.truthy = true) (vs : List JsValue) :
    gathered (v :: w :: vs) = some (.array (v :: w :: vs)) := by
  show gatherOn (some (join (some v) w)) vs = _
  rw [join_other fun _ => read.not_array, if_pos truthy, gatherOn_array]
  rfl

theorem gathered_eq_none {vs : List JsValue} : gathered vs = none ↔ vs = [] := by
  constructor
  · intro none
    cases vs with
    | nil => rfl
    | cons v vs =>
      have there : ∀ (vs : List JsValue) (old : JsValue), ∃ w, gatherOn (some old) vs = some w := by
        intro vs
        induction vs with
        | nil => exact fun old => ⟨old, rfl⟩
        | cons v vs ih => exact fun old => ih (join (some old) v)
      obtain ⟨w, same⟩ := there vs v
      exact absurd (same.symm.trans none) (by simp)
  · rintro rfl
    rfl

/-- Values that have the property have been read, and are true. -/
def Plain (p : JsValue → Prop) : Prop := ∀ v, p v → v.Read ∧ v.truthy = true

/-- Values that are described one by one make the property. -/
theorem shows_of_forall₂ {ps : List (JsValue → Prop)} {vs : List JsValue} (plain : ∀ p ∈ ps, Plain p)
    (each : List.Forall₂ (fun p v => p v) ps vs) : Shows ps (gathered vs) := by
  cases each with
  | nil => rfl
  | @cons p v ps vs here rest =>
    cases rest with
    | nil => exact ⟨v, rfl, here⟩
    | @cons q w ps vs next rest =>
      obtain ⟨read, truthy⟩ := plain p List.mem_cons_self v here
      exact ⟨_, gathered_two read truthy vs, .cons here (.cons next rest)⟩

/-- The first value is the first one described. -/
theorem Shows.peel {p : JsValue → Prop} {ps : List (JsValue → Prop)} {v : JsValue} {vs : List JsValue}
    (plain : ∀ q ∈ p :: ps, Plain q) (read : v.Read) (truthy : v.truthy = true)
    (h : Shows (p :: ps) (gathered (v :: vs))) : p v ∧ Shows ps (gathered vs) := by
  cases vs with
  | nil =>
    cases ps with
    | nil =>
      obtain ⟨w, same, here⟩ := h
      cases same
      exact ⟨here, rfl⟩
    | cons q ps =>
      obtain ⟨ws, same, -⟩ := h
      exact absurd (Option.some.inj same) read.not_array
  | cons w vs =>
    rw [gathered_two read truthy] at h
    cases ps with
    | nil =>
      obtain ⟨u, same, here⟩ := h
      exact absurd (Option.some.inj same).symm (plain p List.mem_cons_self u here).1.not_array
    | cons q ps =>
      obtain ⟨ws, same, each⟩ := h
      cases same
      obtain ⟨here, rest⟩ := List.forall₂_cons.mp each
      exact ⟨here, shows_of_forall₂ (fun q mem => plain q (List.mem_cons_of_mem p mem)) rest⟩

/-- A single value is the first one described. -/
theorem Shows.single {p : JsValue → Prop} {ps : List (JsValue → Prop)} {v : JsValue} (read : v.Read)
    (h : Shows (p :: ps) (some v)) : p v := by
  cases ps with
  | nil =>
    obtain ⟨w, same, here⟩ := h
    cases same
    exact here
  | cons q ps =>
    obtain ⟨ws, same, -⟩ := h
    exact absurd (Option.some.inj same) read.not_array

theorem shown_cons (key : Str) (e : Entry) (es : List Entry) :
    shown key (e :: es) = if e.name.chars = key then e.Shown :: shown key es else shown key es := by
  rw [shown]

theorem shown_plain {key : Str} {es : List Entry} (proper : Proper es) : ∀ p ∈ shown key es, Plain p := by
  induction es with
  | nil => exact fun p mem => by cases mem
  | cons e es ih =>
    have rest : Proper es := by
      cases e with
      | scalar name quoted v =>
        rw [Proper] at proper
        exact proper.2.2
      | message name sub =>
        rw [Proper] at proper
        exact proper.2
    have here : Plain e.Shown := by
      intro w shows
      cases e with
      | scalar name quoted v =>
        rw [Entry.Shown] at shows
        rw [Proper] at proper
        rw [shows]
        exact ⟨.inl ⟨_, rfl⟩, by simpa [JsValue.truthy] using proper.1⟩
      | message name sub =>
        rw [Entry.Shown] at shows
        obtain ⟨o, rfl, -⟩ := shows
        exact ⟨.inr ⟨o, rfl⟩, rfl⟩
    intro p mem
    rw [shown_cons] at mem
    split at mem
    · rcases List.mem_cons.mp mem with rfl | mem
      · exact here
      · exact ih rest p mem
    · exact ih rest p mem

/-- What is no name of a field is not shown. -/
theorem shown_eq_nil {key : Str} (other : ∀ name : Name, name.chars ≠ key) (es : List Entry) : shown key es = [] := by
  induction es with
  | nil => rfl
  | cons e es ih => rw [shown_cons, if_neg (other e.name), ih]

theorem Name.not_inherited (name : Name) {key : Str} (inherits : key ∈ objectPrototype) : name.chars ≠ key := by
  rintro rfl
  exact name.own.1 inherits

/-- What an object shows, by the values that have been added. -/
theorem represents_iff {o : JsObject} {es : List Entry} {log : Log} (built : addAll [] log = .ok o) :
    Represents o es ↔ ∀ key, Shows (shown key es) (gathered (vals key log)) := by
  refine forall_congr' fun key => ?_
  by_cases inherits : key ∈ objectPrototype
  · rw [shown_eq_nil fun name => name.not_inherited inherits]
    show o.lookup key = none ↔ gathered (vals key log) = none
    rw [gathered_eq_none]
    constructor
    · intro none
      exact (addAll_none built none).2
    · intro none
      rw [addAll_lookup built fun _ => none, none]
      rfl
  · rw [addAll_lookup built fun there => absurd there inherits]
    rfl

/-! ## Entries in their order -/

/-- Every entry has been added, in the order of the text. -/
def Aligned (es : List Entry) (log : Log) : Prop :=
  List.Forall₂ (fun (e : Entry) (p : Str × JsValue) => p.1 = e.name.chars ∧ e.Shown p.2) es log

theorem Aligned.vals {es : List Entry} {log : Log} (aligned : Aligned es log) (key : Str) :
    List.Forall₂ (fun p v => p v) (shown key es) (vals key log) := by
  induction aligned with
  | nil => exact .nil
  | cons here _ ih =>
    rw [shown_cons, vals_cons, here.1]
    split
    · exact .cons here.2 ih
    · exact ih

theorem Entry.Shown.hasPush {e : Entry} {v : JsValue} (shows : e.Shown v) : v.hasPush = false := by
  cases e with
  | scalar name quoted line =>
    rw [Entry.Shown] at shows
    rw [shows]
    rfl
  | message name es =>
    rw [Entry.Shown] at shows
    obtain ⟨o, rfl, props⟩ := shows
    have absent := props ['p', 'u', 's', 'h']
    rw [shown_eq_nil fun name => name.own.2] at absent
    rw [JsValue.hasPush, show o.lookup ['p', 'u', 's', 'h'] = none from absent]

theorem Aligned.own {es : List Entry} {log : Log} (aligned : Aligned es log) :
    ∀ p ∈ log, p.1 ∉ objectPrototype ∧ p.2.hasPush = false := by
  induction aligned with
  | nil => exact fun p mem => by cases mem
  | @cons e p es log here _ ih =>
    rintro q mem
    rcases List.mem_cons.mp mem with rfl | mem
    · rw [here.1]
      exact ⟨e.name.own.1, here.2.hasPush⟩
    · exact ih q mem

/-- **Entries that have been added** make an object that represents them. -/
theorem Aligned.object {es : List Entry} {log : Log} (aligned : Aligned es log) (proper : Proper es) :
    ∃ o, addAll [] log = .ok o ∧ Represents o es := by
  have empty : ∀ key old, List.lookup key ([] : JsObject) = some old → old.hasPush = false :=
    fun key old found => by cases found
  obtain ⟨o, built⟩ := addAll_total aligned.own empty
  refine ⟨o, built, (represents_iff built).mpr fun key => ?_⟩
  exact shows_of_forall₂ (shown_plain proper) (aligned.vals key)

end Singa.Web
