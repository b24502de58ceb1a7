import Mathlib

/-!
# `web/static/scripts/model.js`: messages and their text

A message of the editor is the list of its fields. Which fields it can have is
said by the definitions of a package; whether a field holds a message, an enum
or a text is looked up there by the name of its type. What the user interface
keeps of a field (its place on the page, comments, ids) is left out.
-/

namespace Singa.Web
set_option autoImplicit false

abbrev Str := List Char

instance lawfulStr : @LawfulBEq Str List.instBEq := inferInstance

/-- What an input of one line holds. -/
structure Line where
  chars : Str
  oneLine : '\n' ∉ chars
  deriving DecidableEq, Repr

/-- The properties that every object inherits. -/
def objectPrototype : List Str :=
  [['_', '_', 'd', 'e', 'f', 'i', 'n', 'e', 'G', 'e', 't', 't', 'e', 'r', '_', '_'],
    ['_', '_', 'd', 'e', 'f', 'i', 'n', 'e', 'S', 'e', 't', 't', 'e', 'r', '_', '_'],
    ['_', '_', 'l', 'o', 'o', 'k', 'u', 'p', 'G', 'e', 't', 't', 'e', 'r', '_', '_'],
    ['_', '_', 'l', 'o', 'o', 'k', 'u', 'p', 'S', 'e', 't', 't', 'e', 'r', '_', '_'],
    ['_', '_', 'p', 'r', 'o', 't', 'o', '_', '_'],
    ['c', 'o', 'n', 's', 't', 'r', 'u', 'c', 't', 'o', 'r'],
    ['h', 'a', 's', 'O', 'w', 'n', 'P', 'r', 'o', 'p', 'e', 'r', 't', 'y'],
    ['i', 's', 'P', 'r', 'o', 't', 'o', 't', 'y', 'p', 'e', 'O', 'f'],
    ['p', 'r', 'o', 'p', 'e', 'r', 't', 'y', 'I', 's', 'E', 'n', 'u', 'm', 'e', 'r', 'a', 'b', 'l', 'e'],
    ['t', 'o', 'L', 'o', 'c', 'a', 'l', 'e', 'S', 't', 'r', 'i', 'n', 'g'],
    ['t', 'o', 'S', 't', 'r', 'i', 'n', 'g'],
    ['v', 'a', 'l', 'u', 'e', 'O', 'f']]

/-- A letter, a digit or an underscore. -/
def isWord (c : Char) : Bool := c.isAlphanum || c == '_'

/-- The name of a field: a word that is no property of another kind of value. -/
structure Name where
  chars : Str
  word : chars ≠ [] ∧ ∀ c ∈ chars, isWord c
  own : chars ∉ objectPrototype ∧ chars ≠ ['p', 'u', 's', 'h']
  deriving DecidableEq, Repr

inductive Rule where
  | required
  | optional
  | repeated
  deriving DecidableEq, Repr

/-- `FieldDef`; `default` is its `_default`. -/
structure FieldDef where
  name : Name
  rule : Rule
  type : Str
  default : Option Line
  deriving DecidableEq, Repr

structure MessageDef where
  name : Str
  fields : List FieldDef
  deriving DecidableEq, Repr

/-- `Package`, as far as types are looked up in it: `messages` and the names of `enums`. -/
structure Package where
  messages : List MessageDef
  enums : List Str
  distinct : ∀ m ∈ messages, (m.fields.map FieldDef.name).Nodup
  types : ∀ m ∈ messages, ∀ f ∈ m.fields, f.type ≠ "required".toList

namespace Package

/-- `Model.package.messages[type]`. -/
def messageDef (pkg : Package) (type : Str) : Option MessageDef := pkg.messages.find? (·.name == type)

/-- `isMessage`. -/
def isMessage (pkg : Package) (d : FieldDef) : Bool := (pkg.messageDef d.type).isSome

/-- `isEnum`. -/
def isEnum (pkg : Package) (d : FieldDef) : Bool := d.type ∈ pkg.enums

end Package

/-- A field: its `def`, its `value` and its `message`, the fields of which are listed. -/
inductive Field where
  | mk (d : FieldDef) (value : Option Line) (message : Option (List Field))

namespace Field

def d : Field → FieldDef
  | mk d _ _ => d

def value : Field → Option Line
  | mk _ value _ => value

def message : Field → Option (List Field)
  | mk _ _ message => message

/-- `new Field(def)`. -/
def new (d : FieldDef) : Field := mk d (d.default.filter fun v => v.chars ≠ []) none

end Field

/-- `new Message(def)`. -/
def newMessage (md : MessageDef) : List Field := md.fields.map Field.new

/-- A message in which the user has filled a field: it is there once for each of the contents. -/
def fill (name : String) (contents : List (Option Line × Option (List Field))) (fields : List Field) : List Field :=
  fields.flatMap fun f =>
    if f.d.name.chars = name.toList then contents.map fun (value, message) => .mk f.d value message else [f]

/-- The value that `toConf` prints: there is one, and it is not the default. -/
def printed (d : FieldDef) (value : Option Line) : Option Line :=
  value.filter fun v => v.chars ≠ [] ∧ (d.type = "required".toList ∨ some v ≠ d.default)

/-- Is the value printed in quotation marks? -/
def isQuoted (pkg : Package) (d : FieldDef) : Bool := !pkg.isEnum d && d.type == "string".toList

/-- A value as it is printed. -/
def rawValue (quoted : Bool) (v : Line) : Str := if quoted then '"' :: (v.chars ++ ['"']) else v.chars

/-- `toConf` of a field that is no message. -/
def scalarConf (pkg : Package) (indent : Str) (d : FieldDef) (value : Option Line) : Str :=
  match printed d value with
  | some v => indent ++ d.name.chars ++ ": ".toList ++ rawValue (isQuoted pkg d) v ++ "\n".toList
  | none => []

mutual

/-- `Field.toConf`. -/
def Field.toConf (pkg : Package) (indent : Str) : Field → Str
  | .mk d value none => if pkg.isMessage d then [] else scalarConf pkg indent d value
  | .mk d value (some fields) =>
    if pkg.isMessage d then
      indent ++ d.name.chars ++ " \x7b \n".toList ++ toConf pkg (indent ++ "  ".toList) fields ++ indent ++ "\x7d\n".toList
    else scalarConf pkg indent d value

/-- `Message.toConf`. -/
def toConf (pkg : Package) (indent : Str) : List Field → Str
  | [] => []
  | field :: fields => field.toConf pkg indent ++ toConf pkg indent fields

end

/-- `P` holds of a message and of every message below it. -/
inductive Everywhere (pkg : Package) (P : MessageDef → List Field → Prop) : MessageDef → List Field → Prop where
  | intro {md : MessageDef} {fields : List Field} (here : P md fields)
      (below : ∀ field ∈ fields, ∀ sub, field.message = some sub → ∀ md', pkg.messageDef field.d.type = some md' →
        Everywhere pkg P md' sub) : Everywhere pkg P md fields

theorem everywhere_leaf {pkg : Package} {P : MessageDef → List Field → Prop} {md : MessageDef} {fields : List Field}
    (here : P md fields) (leaf : ∀ field ∈ fields, field.message = none) : Everywhere pkg P md fields := by
  refine .intro here fun field mem sub present => ?_
  rw [leaf field mem] at present
  cases present

/-- Messages below which there are no others. -/
theorem everywhere_below {pkg : Package} {P : MessageDef → List Field → Prop} {md : MessageDef} {fields : List Field}
    (here : P md fields)
    (below : ∀ field ∈ fields, ∀ sub, field.message = some sub → (∀ f ∈ sub, f.message = none) ∧
      ∀ md', pkg.messageDef field.d.type = some md' → P md' sub) : Everywhere pkg P md fields := by
  refine .intro here fun field mem sub present md' found => ?_
  obtain ⟨leaf, inner⟩ := below field mem sub present
  exact everywhere_leaf (inner md' found) leaf

/-- The fields of a message are those of its definition, and those that have a message are of its type. -/
def OfDef (pkg : Package) (md : MessageDef) (fields : List Field) : Prop :=
  ∀ field ∈ fields, field.d ∈ md.fields ∧ (field.message.isSome → pkg.isMessage field.d)

/-- A message with the definition `md`, by the definitions of the package. -/
structure Typed (pkg : Package) (md : MessageDef) (fields : List Field) : Prop where
  listed : md ∈ pkg.messages
  tree : Everywhere pkg (OfDef pkg) md fields

end Singa.Web
