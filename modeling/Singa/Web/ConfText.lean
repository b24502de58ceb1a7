import Singa.Web.Model

/-!
# What the text of a message contains

`toConf` prints one entry for every field it does not leave out, and the lines
of its text say which entries these are. A text is initialized, for protobuf's
parser, if every required field of every message in it has an entry; defaults
make no difference to that.
-/

namespace Singa.Web
set_option autoImplicit false

/-- An entry of a text: the value of a field, or a message with its entries. -/
inductive Entry where
  | scalar (name : Name) (quoted : Bool) (value : Line)
  | message (name : Name) (entries : List Entry)

def Entry.name : Entry → Name
  | scalar name _ _ => name
  | message name _ => name

mutual

/-- The text of an entry. -/
def Entry.render (indent : Str) : Entry → Str
  | .scalar name quoted v => indent ++ name.chars ++ ": ".toList ++ rawValue quoted v ++ "\n".toList
  | .message name es =>
    indent ++ name.chars ++ " \x7b \n".toList ++ render (indent ++ "  ".toList) es ++ indent ++ "\x7d\n".toList

def render (indent : Str) : List Entry → Str
  | [] => []
  | e :: es => e.render indent ++ render indent es

end

def scalarEntry (pkg : Package) (d : FieldDef) (value : Option Line) : List Entry :=
  match printed d value with
  | some v => [.scalar d.name (isQuoted pkg d) v]
  | none => []

mutual

/-- The entry of a field, if it has one. -/
def Field.entry (pkg : Package) : Field → List Entry
  | .mk d value none => if pkg.isMessage d then [] else scalarEntry pkg d value
  | .mk d value (some fields) => if pkg.isMessage d then [.message d.name (entries pkg fields)] else scalarEntry pkg d value

/-- The entries of a message. -/
def entries (pkg : Package) : List Field → List Entry
  | [] => []
  | field :: fields => field.entry pkg ++ entries pkg fields

end

theorem render_append (indent : Str) (es es' : List Entry) : render indent (es ++ es') = render indent es ++ render indent es' := by
  induction es with
  | nil => rfl
  | cons e es ih => rw [List.cons_append, render, render, ih, List.append_assoc]

theorem scalarConf_eq (pkg : Package) (indent : Str) (d : FieldDef) (value : Option Line) :
    scalarConf pkg indent d value = render indent (scalarEntry pkg d value) := by
  unfold scalarConf scalarEntry
  cases printed d value with
  | none => rfl
  | some v => simp [render, Entry.render]

mutual

theorem Field.toConf_eq (pkg : Package) (indent : Str) : ∀ field : Field,
    field.toConf pkg indent = render indent (field.entry pkg)
  | .mk d value none => by
    rw [Field.toConf, Field.entry]
    split
    · rfl
    · exact scalarConf_eq pkg indent d value
  | .mk d value (some fields) => by
    rw [Field.toConf, Field.entry]
    split
    · rw [render, render, Entry.render, toConf_eq pkg _ fields, List.append_nil]
    · exact scalarConf_eq pkg indent d value

/-- **`toConf` prints the entries of a message.** -/
theorem toConf_eq (pkg : Package) (indent : Str) : ∀ fields : List Field,
    toConf pkg indent fields = render indent (entries pkg fields)
  | [] => rfl
  | field :: fields => by
    rw [toConf, entries, render_append, Field.toConf_eq pkg indent field, toConf_eq pkg indent fields]

end

theorem mem_scalarEntry {pkg : Package} {d : FieldDef} {value : Option Line} {e : Entry} :
    e ∈ scalarEntry pkg d value ↔ ∃ v, printed d value = some v ∧ e = .scalar d.name (isQuoted pkg d) v := by
  unfold scalarEntry
  cases printed d value <;> simp

/-- An entry comes from a field that is printed. -/
theorem mem_entries {pkg : Package} {fields : List Field} {e : Entry} :
    e ∈ entries pkg fields ↔ ∃ field ∈ fields,
      (pkg.isMessage field.d ∧ ∃ sub, field.message = some sub ∧ e = .message field.d.name (entries pkg sub)) ∨
        ¬ pkg.isMessage field.d ∧ ∃ v, printed field.d field.value = some v ∧
          e = .scalar field.d.name (isQuoted pkg field.d) v := by
  induction fields with
  | nil => simp [entries]
  | cons field fields ih =>
    rw [entries, List.mem_append, ih, List.exists_mem_cons_iff]
    apply or_congr_left
    rcases field with ⟨d, value, none | sub⟩
    · by_cases message : pkg.isMessage d <;> simp [Field.entry, Field.d, Field.message, Field.value, message, mem_scalarEntry]
    · by_cases message : pkg.isMessage d <;> simp [Field.entry, Field.d, Field.message, Field.value, message, mem_scalarEntry]

/-- Every required field has an entry, in the message itself and in those below. -/
inductive Initialized (pkg : Package) : MessageDef → List Entry → Prop where
  | intro {md : MessageDef} {es : List Entry}
      (here : ∀ d ∈ md.fields, d.rule = .required → ∃ e ∈ es, e.name = d.name)
      (below : ∀ d ∈ md.fields, ∀ sub, Entry.message d.name sub ∈ es → ∀ md', pkg.messageDef d.type = some md' →
        Initialized pkg md' sub) : Initialized pkg md es

/-- A text contains an entry for every required field of a message. -/
def Contains (pkg : Package) (md : MessageDef) (text : Str) : Prop := ∃ es, text = render [] es ∧ Initialized pkg md es

/-! ## Lines tell the entries -/

/-- Entries of the same names, with the same text. -/
inductive Alike : List Entry → List Entry → Prop where
  | nil : Alike [] []
  | scalar {name : Name} {quoted quoted' : Bool} {v v' : Line} {es es' : List Entry}
      (raw : rawValue quoted v = rawValue quoted' v') (rest : Alike es es') :
      Alike (.scalar name quoted v :: es) (.scalar name quoted' v' :: es')
  | message {name : Name} {sub sub' es es' : List Entry} (below : Alike sub sub') (rest : Alike es es') :
      Alike (.message name sub :: es) (.message name sub' :: es')

theorem Alike.names {es es' : List Entry} (h : Alike es es') : es.map Entry.name = es'.map Entry.name := by
  induction h with
  | nil => rfl
  | scalar raw rest ih => rw [List.map_cons, List.map_cons, ih]; rfl
  | message below rest _ ih => rw [List.map_cons, List.map_cons, ih]; rfl

theorem Alike.message_mem {es es' : List Entry} (h : Alike es es') {name : Name} {sub' : List Entry}
    (mem : Entry.message name sub' ∈ es') : ∃ sub, Entry.message name sub ∈ es ∧ Alike sub sub' := by
  induction h with
  | nil => cases mem
  | scalar raw rest ih =>
    obtain ⟨sub, mem, alike⟩ := ih ((List.mem_cons.mp mem).resolve_left (by simp))
    exact ⟨sub, List.mem_cons_of_mem _ mem, alike⟩
  | message below rest _ ih =>
    rcases List.mem_cons.mp mem with same | mem
    · cases same
      exact ⟨_, List.mem_cons_self, below⟩
    · obtain ⟨sub, mem, alike⟩ := ih mem
      exact ⟨sub, List.mem_cons_of_mem _ mem, alike⟩

theorem Initialized.alike {pkg : Package} {md : MessageDef} {es es' : List Entry} (h : Initialized pkg md es)
    (alike : Alike es es') : Initialized pkg md es' := by
  induction h generalizing es' with
  | intro here below ih =>
    refine .intro (fun d mem required => ?_) fun d mem sub' mem' md' found => ?_
    · obtain ⟨e, listed, same⟩ := here d mem required
      have named : e.name ∈ (_ : List Entry).map Entry.name := List.mem_map_of_mem listed
      rw [alike.names] at named
      obtain ⟨e', listed', same'⟩ := List.mem_map.mp named
      exact ⟨e', listed', same'.trans same⟩
    · obtain ⟨sub, listed, alike'⟩ := alike.message_mem mem'
      exact ih d mem sub listed md' found alike'

/-- Where a text stops to have a property is determined. -/
theorem span_unique {p : Char → Bool} {l l' r r' : Str} {c c' : Char} (same : l ++ c :: r = l' ++ c' :: r')
    (hl : ∀ a ∈ l, p a) (hc : p c = false) (hl' : ∀ a ∈ l', p a) (hc' : p c' = false) : l = l' ∧ c :: r = c' :: r' := by
  have first : l = l' := by
    have taken := congrArg (List.takeWhile p) same
    rwa [List.takeWhile_append_of_pos hl, List.takeWhile_append_of_pos hl', List.takeWhile_cons_of_neg (by simp [hc]),
      List.takeWhile_cons_of_neg (by simp [hc']), List.append_nil, List.append_nil] at taken
  subst first
  exact ⟨rfl, List.append_cancel_left same⟩

theorem rawValue_oneLine {quoted : Bool} {v : Line} : '\n' ∉ rawValue quoted v := by
  cases quoted with
  | true => simp [rawValue, v.oneLine]
  | false => exact v.oneLine

/-- What follows the entries of a message: nothing, or a closing brace that is indented less. -/
def Closes (indent rest : Str) : Prop := rest = [] ∨ ∃ outer behind, indent = outer ++ "  ".toList ∧ rest = outer ++ '\x7d' :: behind

theorem Entry.render_ne_nil (indent : Str) (e : Entry) : e.render indent ≠ [] := by
  cases e <;> simp [Entry.render]

/-- No entry begins where entries end. -/
theorem Closes.not_entry {indent rest behind : Str} (h : Closes indent rest) (e : Entry) (es : List Entry) :
    rest ≠ Web.render indent (e :: es) ++ behind := by
  rcases h with rfl | ⟨outer, behind', rfl, rfl⟩
  · simp [Web.render, Entry.render_ne_nil]
  · intro same
    rw [Web.render] at same
    cases e with
    | scalar name quoted v => simp [Entry.render] at same
    | message name sub => simp [Entry.render] at same

/-- **A text is that of one list of entries only**, up to quotation marks that could belong to a value. -/
theorem render_alike (indent : Str) : ∀ (es es' : List Entry) (rest rest' : Str), Closes indent rest → Closes indent rest' →
    render indent es ++ rest = render indent es' ++ rest' → Alike es es' ∧ rest = rest'
  | [], [], rest, rest', _, _, same => ⟨.nil, same⟩
  | [], e' :: es', rest, rest', closes, _, same => absurd same (closes.not_entry e' es')
  | e :: es, [], rest, rest', _, closes, same => absurd same.symm (closes.not_entry e es)
  | .scalar name quoted v :: es, .scalar name' quoted' v' :: es', rest, rest', closes, closes', same => by
    simp only [render, Entry.render, List.append_assoc] at same
    obtain ⟨named, tails⟩ := span_unique (List.append_cancel_left same) name.word.2 rfl name'.word.2 rfl
    have names : name = name' := by cases name; cases name'; cases named; rfl
    subst names
    have behind := List.append_cancel_left (show ": ".toList ++ _ = ": ".toList ++ _ from tails)
    obtain ⟨raw, tails⟩ := span_unique (p := (· != '\n')) behind
      (fun a mem => by simpa using fun h => rawValue_oneLine (h ▸ mem)) rfl
      (fun a mem => by simpa using fun h => rawValue_oneLine (h ▸ mem)) rfl
    obtain ⟨alike, rests⟩ := render_alike indent es es' rest rest' closes closes' (List.cons.inj tails).2
    exact ⟨.scalar raw alike, rests⟩
  | .scalar name quoted v :: es, .message name' sub' :: es', rest, rest', _, _, same => by
    simp only [render, Entry.render, List.append_assoc] at same
    obtain ⟨-, same⟩ := span_unique (List.append_cancel_left same) name.word.2 rfl name'.word.2 rfl
    exact absurd (List.cons.inj same).1 (by decide)
  | .message name sub :: es, .scalar name' quoted' v' :: es', rest, rest', _, _, same => by
    simp only [render, Entry.render, List.append_assoc] at same
    obtain ⟨-, same⟩ := span_unique (List.append_cancel_left same) name.word.2 rfl name'.word.2 rfl
    exact absurd (List.cons.inj same).1 (by decide)
  | .message name sub :: es, .message name' sub' :: es', rest, rest', closes, closes', same => by
    simp only [render, Entry.render, List.append_assoc] at same
    obtain ⟨named, tails⟩ := span_unique (List.append_cancel_left same) name.word.2 rfl name'.word.2 rfl
    have names : name = name' := by cases name; cases name'; cases named; rfl
    subst names
    have behind := List.append_cancel_left (show " \x7b \n".toList ++ _ = " \x7b \n".toList ++ _ from tails)
    obtain ⟨below, tails⟩ := render_alike (indent ++ "  ".toList) sub sub' _ _ (.inr ⟨indent, _, rfl, rfl⟩)
      (.inr ⟨indent, _, rfl, rfl⟩) behind
    have behind := List.append_cancel_left (show "\x7d\n".toList ++ _ = "\x7d\n".toList ++ _ from
      List.append_cancel_left tails)
    obtain ⟨alike, rests⟩ := render_alike indent es es' rest rest' closes closes' behind
    exact ⟨.message below alike, rests⟩

end Singa.Web
