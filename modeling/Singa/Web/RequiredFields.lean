import Mathlib.Data.List.Nodup
import Singa.Web.ConfText
import Singa.Web.Package

/-!
# Are required fields printed?

`toConf` leaves out a value that is the default of its field. Required fields
are to be printed all the same, but `toConf` compares the type of a field with
`required` and not its rule, and no type has that name.
-/

namespace Singa.Web
set_option autoImplicit false

variable {pkg : Package} {md : MessageDef} {fields : List Field}

/-- A field has a value, or its message is there. -/
def Field.HasValue (pkg : Package) (field : Field) : Prop :=
  (pkg.isMessage field.d ∧ ∃ sub, field.message = some sub) ∨
    ¬ pkg.isMessage field.d ∧ ∃ v, field.value = some v ∧ v.chars ≠ []

/-- Every required field has a value or a message. -/
def Filled (pkg : Package) (md : MessageDef) (fields : List Field) : Prop :=
  ∀ d ∈ md.fields, d.rule = .required → ∃ field ∈ fields, field.d = d ∧ field.HasValue pkg

/-- Every required field that is no message has a value other than its default. -/
def Changed (pkg : Package) (md : MessageDef) (fields : List Field) : Prop :=
  ∀ d ∈ md.fields, d.rule = .required → ¬ pkg.isMessage d → ∃ field ∈ fields, field.d = d ∧
    ∃ v, field.value = some v ∧ v.chars ≠ [] ∧ some v ≠ d.default

theorem printed_eq_some {d : FieldDef} (type : d.type ≠ "required".toList) {value : Option Line} {v : Line} :
    printed d value = some v ↔ value = some v ∧ v.chars ≠ [] ∧ some v ≠ d.default := by
  rw [printed, Option.filter_eq_some_iff, decide_eq_true_eq, or_iff_right type]

/-- A name belongs to one definition only. -/
theorem Typed.unique (typed : Typed pkg md fields) {field : Field} (mem : field ∈ fields) {d : FieldDef} (listed : d ∈ md.fields)
    (same : field.d.name = d.name) : field.d = d := by
  obtain ⟨here, -⟩ := typed.tree
  exact List.inj_on_of_nodup_map (pkg.distinct md typed.listed) (here field mem).1 listed same

theorem Typed.below (typed : Typed pkg md fields) {field : Field} (mem : field ∈ fields) {sub : List Field}
    (present : field.message = some sub) {md' : MessageDef} (found : pkg.messageDef field.d.type = some md') :
    Typed pkg md' sub := by
  obtain ⟨-, below⟩ := typed.tree
  exact ⟨List.mem_of_find?_eq_some found, below field mem sub present md' found⟩

/-- If all required fields of the entries are there, they have been changed. -/
theorem changed_of_initialized (typed : Typed pkg md fields) (init : Initialized pkg md (entries pkg fields)) :
    Everywhere pkg (Changed pkg) md fields := by
  obtain ⟨listed, tree⟩ := typed
  induction tree with
  | @intro md fields here below ih =>
    have typed : Typed pkg md fields := ⟨listed, .intro here below⟩
    obtain ⟨present, inner⟩ := init
    refine .intro (fun d mem required scalar => ?_) fun field mem sub message md' found => ?_
    · obtain ⟨e, entry, name⟩ := present d mem required
      obtain ⟨field, there, ⟨message, sub, -, rfl⟩ | ⟨-, v, shown, rfl⟩⟩ := mem_entries.mp entry
      · exact absurd (typed.unique there mem name ▸ message) scalar
      · have same := typed.unique there mem name
        rw [same] at shown
        exact ⟨field, there, same, v, (printed_eq_some (pkg.types md listed d mem)).mp shown⟩
    · have isMessage : pkg.isMessage field.d := by rw [Package.isMessage, found]; rfl
      have entry : Entry.message field.d.name (entries pkg sub) ∈ entries pkg fields :=
        mem_entries.mpr ⟨field, mem, .inl ⟨isMessage, sub, message, rfl⟩⟩
      exact ih field mem sub message md' found (inner field.d (here field mem).1 _ entry md' found)
        (List.mem_of_find?_eq_some found)

/-- If they have been changed, or are messages that are there, they have entries. -/
theorem initialized_of_changed (typed : Typed pkg md fields) (filled : Everywhere pkg (Filled pkg) md fields)
    (changed : Everywhere pkg (Changed pkg) md fields) : Initialized pkg md (entries pkg fields) := by
  induction filled with
  | @intro md fields filled _ ih =>
    obtain ⟨changed, changed_below⟩ := changed
    refine .intro (fun d mem required => ?_) fun d mem es entry md' found => ?_
    · by_cases message : pkg.isMessage d
      · obtain ⟨field, there, rfl, ⟨-, sub, present⟩ | ⟨scalar, -⟩⟩ := filled d mem required
        swap
        · exact absurd message scalar
        exact ⟨_, mem_entries.mpr ⟨field, there, .inl ⟨message, sub, present, rfl⟩⟩, rfl⟩
      · obtain ⟨field, there, rfl, v, value⟩ := changed d mem required message
        have shown := (printed_eq_some (pkg.types md typed.listed field.d mem)).mpr value
        exact ⟨_, mem_entries.mpr ⟨field, there, .inr ⟨message, v, shown, rfl⟩⟩, rfl⟩
    · obtain ⟨field, there, ⟨message, sub, present, same⟩ | ⟨-, v, -, same⟩⟩ := mem_entries.mp entry
      · obtain ⟨name, rfl⟩ := Entry.message.inj same
        have same := typed.unique there mem name.symm
        rw [← same] at found
        exact ih field there sub present md' found (typed.below there present found)
          (changed_below field there sub present md' found)
      · cases same

/-- **A required field has an entry in the text** exactly if its value is not its default. -/
theorem toConf_contains_iff (typed : Typed pkg md fields) (filled : Everywhere pkg (Filled pkg) md fields) :
    Contains pkg md (toConf pkg [] fields) ↔ Everywhere pkg (Changed pkg) md fields := by
  rw [toConf_eq]
  constructor
  · rintro ⟨es, same, init⟩
    have text : render [] (entries pkg fields) ++ [] = render [] es ++ [] := by rw [same]
    obtain ⟨alike, -⟩ := render_alike [] _ _ _ _ (.inl rfl) (.inl rfl) text.symm
    exact changed_of_initialized typed (init.alike alike)
  · intro changed
    exact ⟨_, rfl, initialized_of_changed typed filled changed⟩

/-! ## A new message -/

/-- Nothing is below a new message. -/
theorem everywhere_newMessage {P : MessageDef → List Field → Prop} (here : P md (newMessage md)) :
    Everywhere pkg P md (newMessage md) := by
  apply everywhere_leaf here
  intro field mem
  obtain ⟨d, -, rfl⟩ := List.mem_map.mp mem
  rfl

theorem newMessage_typed (listed : md ∈ pkg.messages) : Typed pkg md (newMessage md) := by
  refine ⟨listed, everywhere_newMessage fun field mem => ?_⟩
  obtain ⟨d, there, rfl⟩ := List.mem_map.mp mem
  exact ⟨there, fun present => absurd present (by simp [Field.new, Field.message])⟩

/-- A new `UpdaterProto` has its defaults for both required fields, and its text is empty. -/
theorem newUpdater_not_contains : Typed packsinga updaterProto (newMessage updaterProto) ∧
    Everywhere packsinga (Filled packsinga) updaterProto (newMessage updaterProto) ∧
      ¬ Contains packsinga updaterProto (toConf packsinga [] (newMessage updaterProto)) := by
  refine ⟨newMessage_typed (by decide +kernel), everywhere_newMessage fun d mem required => ?_, ?_⟩
  · have defaults : ∀ d ∈ updaterProto.fields, d.rule = .required →
        packsinga.isMessage d = false ∧ ∃ v ∈ d.default, v.chars ≠ [] := by decide +kernel
    obtain ⟨scalar, v, default, value⟩ := defaults d mem required
    refine ⟨Field.new d, List.mem_map_of_mem mem, rfl, .inr ⟨?_, v, ?_, value⟩⟩
    · show ¬ packsinga.isMessage d
      rw [scalar]
      decide
    show d.default.filter _ = some v
    rw [Option.mem_def.mp default, Option.filter_some, if_pos (decide_eq_true value)]
  · have empty : toConf packsinga [] (newMessage updaterProto) = [] := by decide +kernel
    rw [empty]
    rintro ⟨es, text, init⟩
    cases es with
    | nil =>
      obtain ⟨here, -⟩ := init
      obtain ⟨d, mem, required⟩ : ∃ d ∈ updaterProto.fields, d.rule = .required := by decide +kernel
      obtain ⟨e, none, -⟩ := here d mem required
      cases none
    | cons e es =>
      rw [render] at text
      exact e.render_ne_nil [] (List.append_eq_nil_iff.mp text.symm).1

/-- A `StepProto` whose values are not the defaults. -/
def halfStep : List Field :=
  fill "gamma" [(some ⟨"0.5".toList, by decide⟩, none)] (fill "change_freq" [(some ⟨"60".toList, by decide⟩, none)]
    (newMessage stepProto))

/-- An `UpdaterProto` with such a message below it, and values that are not the defaults. -/
def halfUpdater : List Field :=
  fill "type" [(some ⟨"kAdaGrad".toList, by decide⟩, none)] (fill "lr_change" [(some ⟨"kStep".toList, by decide⟩, none)]
    (fill "step_conf" [(none, some halfStep)] (newMessage updaterProto)))

/-- The required fields of both levels are in the text. -/
theorem halfUpdater_contains : Contains packsinga updaterProto (toConf packsinga [] halfUpdater) := by
  -- the only message below is the step
  have inner : ∀ field ∈ halfUpdater, ∀ sub ∈ field.message, packsinga.messageDef field.d.type = some stepProto ∧
      (∀ f ∈ sub, f.message = none ∧ f.d ∈ stepProto.fields) ∧ ∀ d ∈ stepProto.fields, ∃ f ∈ sub, f.d = d ∧
        ∃ v ∈ f.value, v.chars ≠ [] ∧ some v ≠ d.default := by decide +kernel
  have changed : Everywhere packsinga (Changed packsinga) updaterProto halfUpdater := by
    have values : ∀ d ∈ updaterProto.fields, d.rule = .required → ∃ field ∈ halfUpdater, field.d = d ∧
        ∃ v ∈ field.value, v.chars ≠ [] ∧ some v ≠ d.default := by decide +kernel
    refine everywhere_below (fun d mem required _ => values d mem required) fun field mem sub present => ?_
    obtain ⟨step, leaf, values⟩ := inner field mem sub present
    refine ⟨fun f there => (leaf f there).1, fun md' found d listed _ _ => ?_⟩
    rw [step] at found
    cases found
    exact values d listed
  have scalar : (∀ d ∈ updaterProto.fields, d.rule = .required → ¬ packsinga.isMessage d) ∧
      ∀ d ∈ stepProto.fields, ¬ packsinga.isMessage d := by decide +kernel
  have filled : Everywhere packsinga (Filled packsinga) updaterProto halfUpdater := by
    cases changed with
    | intro here below =>
      refine everywhere_below (fun d mem required => ?_) fun field mem sub present => ?_
      · obtain ⟨field, there, rfl, v, value, nonempty, -⟩ := here d mem required (scalar.1 d mem required)
        exact ⟨field, there, rfl, .inr ⟨scalar.1 _ mem required, v, value, nonempty⟩⟩
      · obtain ⟨step, leaf, values⟩ := inner field mem sub present
        refine ⟨fun f there => (leaf f there).1, fun md' found d listed _ => ?_⟩
        rw [step] at found
        cases found
        obtain ⟨f, there, same, v, value, nonempty, -⟩ := values d listed
        exact ⟨f, there, same, .inr ⟨same ▸ scalar.2 d listed, v, value, nonempty⟩⟩
  have typed : Typed packsinga updaterProto halfUpdater := by
    have listed : ∀ field ∈ halfUpdater, field.d ∈ updaterProto.fields ∧
        (field.message.isSome → packsinga.isMessage field.d) := by decide +kernel
    refine ⟨by decide +kernel, everywhere_below listed fun field mem sub present => ?_⟩
    obtain ⟨step, leaf, -⟩ := inner field mem sub present
    refine ⟨fun f there => (leaf f there).1, fun md' found f there => ?_⟩
    rw [step] at found
    cases found
    refine ⟨(leaf f there).2, fun some => ?_⟩
    rw [(leaf f there).1] at some
    cases some
  exact (toConf_contains_iff typed filled).mpr changed

end Singa.Web
