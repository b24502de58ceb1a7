import Singa.Utils.Abort
import Singa.Web.Package

/-!
# The buttons of a repeated field in `model.js`

A repeated field has a button that clones it (`plus-btn`) and one that empties or
destroys it (`minus-btn`). The list `Message.fields` and what the page shows of it
are changed one after the other. Fields are told apart by their `id`; the ids of
definitions are kept next to the package.
-/

namespace Singa.Web
set_option autoImplicit false

/-- `Model.package` with the `id` of every `FieldDef` and the groups of the `constrains` of every message. -/
structure Schema where
  pkg : Package
  defId : Str → Name → Nat
  groups : Str → List (List Name)

/-- A `Field` object: its `id`, `def` and `value`, and its `message`, of which `drawn` says whether it has a `$dom`. -/
inductive LiveField where
  | mk (id : Nat) (d : FieldDef) (value : Option Line) (drawn : Bool) (message : Option (List LiveField))

namespace LiveField

def id : LiveField → Nat
  | mk id _ _ _ _ => id

def d : LiveField → FieldDef
  | mk _ d _ _ _ => d

end LiveField

mutual

/-- What `toConf` prints of a field. -/
def LiveField.plain : LiveField → Field
  | .mk _ d value _ none => .mk d value none
  | .mk _ d value _ (some fields) => .mk d value (some (plains fields))

def plains : List LiveField → List Field
  | [] => []
  | f :: fields => f.plain :: plains fields

end

variable (s : Schema) (md : MessageDef)

/-! ## The list of a message -/

/-- `compareField`. -/
def compareField (a b : LiveField) : Int :=
  if s.defId md.name a.d.name > s.defId md.name b.d.name then 1
  else if s.defId md.name a.d.name < s.defId md.name b.d.name then -1
  else if a.id > b.id then 1
  else if a.id < b.id then -1
  else 0

/-- `sortField`. -/
def sortField (fields : List LiveField) : List LiveField := fields.insertionSort fun a b => compareField s md a b ≤ 0

/-- `indexOf`; `undefined` is in no list of fields. -/
def indexOfField (fields : List LiveField) : Option LiveField → Int
  | none => -1
  | some f =>
    match fields.findIdx? fun g => g.id = f.id with
    | some i => i
    | none => -1

/-- `splice`: a negative position counts from the end. -/
def splice (fields : List LiveField) (start : Int) (count : Nat) : List LiveField :=
  let i := if start < 0 then (fields.length + start).toNat else min start.toNat fields.length
  fields.take i ++ fields.drop (i + count)

/-- `removeField`. -/
def removeField (fields : List LiveField) (field : Option LiveField) : List LiveField :=
  splice fields (indexOfField fields field) 1

/-! ## Cloning -/

/-- The fields of `new Message(def)`. -/
def newFields (next : Nat) : List LiveField :=
  (md.fields.zipIdx next).map fun (d, id) => .mk id d (d.default.filter fun v => v.chars ≠ []) false none

/-- `getFieldByName` finds all fields of the constraints; otherwise `hideConstrainFields` stops with a `TypeError`. -/
def complete (fields : List LiveField) : Bool :=
  (s.groups md.name).all fun group => group.all fun name => fields.any fun f => f.d.name = name

mutual

/-- `Field.clone`; `next` is `Field.IdSequence`. The clone of a message is rendered at once. -/
def LiveField.clone (next : Nat) : LiveField → Run LiveField × Nat
  | .mk _ d value _ none =>
    match s.pkg.messageDef d.type with
    | none => (.ok (.mk next d value false none), next + 1)
    | some _ => (.ok (.mk next d (d.default.filter fun v => v.chars ≠ []) false none), next + 1)
  | .mk _ d value _ (some fields) =>
    match s.pkg.messageDef d.type with
    | none => (.ok (.mk next d value false none), next + 1)
    | some md =>
      -- `new Message(this.def)` makes fields that are thrown away
      match cloneFields (next + 1 + md.fields.length) fields with
      | (.error e, next') => (.error e, next')
      | (.ok fields', next') =>
        if complete s md fields' then
          (.ok (.mk next d (d.default.filter fun v => v.chars ≠ []) true (some (sortField s md fields'))), next')
        else (.error .typeError, next')

/-- The clones of the fields of a message. -/
def cloneFields (next : Nat) : List LiveField → Run (List LiveField) × Nat
  | [] => (.ok [], next)
  | f :: fields =>
    match f.clone next with
    | (.error e, next') => (.error e, next')
    | (.ok f', next') =>
      match cloneFields next' fields with
      | (.error e, next'') => (.error e, next'')
      | (.ok fields', next'') => (.ok (f' :: fields'), next'')

end

/-- The `show-btn` of a field that has just been cloned: a message that is not there is made. -/
def LiveField.showMessage (next : Nat) : LiveField → LiveField × Nat
  | .mk id d value drawn none =>
    match s.pkg.messageDef d.type with
    | some md => (.mk id d value true (some (newFields md next)), next + md.fields.length)
    | none => (.mk id d value drawn none, next)
  | f => (f, next)

/-- `empty`; a message that has never been shown stays, since `destroy` stops at its `$dom`. -/
def LiveField.empty : LiveField → LiveField
  | .mk id d value drawn message =>
    if s.pkg.isMessage d then
      if drawn then .mk id d value false none else .mk id d value drawn message
    else .mk id d none drawn message

/-! ## The page -/

/-- A message on the page: `Message.fields`, the fields in its `.detail`, and `Field.IdSequence`. -/
structure Page where
  fields : List LiveField
  shown : List LiveField
  nextId : Nat

/-- A click at a button of the field with an `id`. -/
inductive Press where
  | plus (id : Nat)
  | minus (id : Nat)
  deriving DecidableEq, Repr

/-- The field whose button is clicked: it is on the page, and repeated. -/
def button (page : Page) (id : Nat) : Option LiveField := page.shown.find? fun f => f.id = id ∧ f.d.rule = .repeated

/-- `insertAfter`. -/
def insertAfter (f newField : LiveField) : List LiveField → List LiveField
  | [] => []
  | g :: shown => if g.id = f.id then g :: newField :: shown else g :: insertAfter f newField shown

/-- An object that has changed, wherever it is listed. -/
def update (f : LiveField) (fields : List LiveField) : List LiveField := fields.map fun g => if g.id = f.id then f else g

/-- `plus-btn`; nothing is added if `clone` stops. -/
def plus (page : Page) (f : LiveField) : Page :=
  match f.clone s page.nextId with
  | (.error _, next) => { page with nextId := next }
  | (.ok newField, next) =>
    let (newField, next) := newField.showMessage s next
    { fields := sortField s md (page.fields ++ [newField]), shown := insertAfter f newField page.shown, nextId := next }

/-- Is the field the only one of its name on the page? -/
def alone (page : Page) (f : LiveField) : Bool := (page.shown.filter fun g => g.d.name = f.d.name).length == 1

/-- `Field.destroy` calls `removeField()` without an argument. -/
def destroy (page : Page) (f : LiveField) : Page :=
  { page with fields := removeField page.fields none, shown := page.shown.filter fun g => g.id ≠ f.id }

/-- `minus-btn`. -/
def minus (page : Page) (f : LiveField) : Page :=
  if alone page f then
    { page with fields := update (f.empty s) page.fields, shown := update (f.empty s) page.shown }
  else destroy page f

/-- A click, if there is such a button. -/
def press (page : Page) : Press → Option Page
  | .plus id => (button page id).map fun f => plus s md page f
  | .minus id => (button page id).map fun f => minus s page f

/-! ## The package of the editor -/

/-- The ids of the definitions of `packsinga`. -/
def definitionIds : List (MessageDef × List Nat) :=
  [(jobProto, [1, 2]),
    (clusterProto, [1, 2, 3, 4, 5, 6, 15, 11, 61, 62, 64, 65, 66]),
    (modelProto, [1, 3, 5, 7, 8, 9, 30, 31, 32, 33, 34, 35, 36, 37, 38, 60, 61, 62, 63, 64, 65, 66, 67, 68, 69]),
    (netProto, [1, 2]),
    (paramProto, [1, 5, 6, 7, 8, 9, 15, 16, 17, 30, 31, 61, 62, 63, 64, 65]),
    (layerProto, [1, 3, 12, 15, 16, 20, 30, 31, 33, 34, 35, 45, 36, 37, 44, 38, 39, 32, 41, 40, 42, 43, 48, 49, 59, 58, 60, 62]),
    (rgbImageProto, [1, 2, 3, 4]),
    (prefetchProto, [1]),
    (splitProto, [1]),
    (tanhProto, [1, 2]),
    (softmaxLossProto, [1, 30]),
    (convolutionProto, [1, 2, 30, 31, 32]),
    (concateProto, [1]),
    (dataProto, [2, 4, 30]),
    (mnistProto, [1, 2, 30, 31, 32, 33, 34, 35, 36]),
    (dropoutProto, [30]),
    (rbmVisProto, [1, 2]),
    (rbmHidProto, [1, 2]),
    (innerProductProto, [1, 30]),
    (lrnProto, [1, 31, 32, 33, 34]),
    (poolingProto, [1, 30, 31, 32]),
    (sliceProto, [1]),
    (reluProto, [1]),
    (updaterProto, [1, 50, 2, 40, 41, 42, 43, 44, 45, 31, 32, 34, 35]),
    (rmspropProto, [1]),
    (fixedStepProto, [28, 29]),
    (stepProto, [35, 40]),
    (linearProto, [40, 39]),
    (exponentialProto, [40]),
    (inverseTProto, [39]),
    (inverseProto, [1, 2])]

/-- The `id` of a definition; 0 stands for `undefined`. -/
def definitionId (message : Str) (name : Name) : Nat :=
  match definitionIds.find? fun p => p.1.name = message with
  | some (md, ids) =>
    match (md.fields.zip ids).find? fun p => p.1.name = name with
    | some (_, id) => id
    | none => 0
  | none => 0

/-- `changeFunction`. -/
def changeFunction (value : Str) : Str := (value.drop 1).map Char.toLower ++ "_conf".toList

/-- `addConstrain`: the fields of `md` that belong to the values of an enum. -/
def fieldGroup (md : MessageDef) (values : List String) : List Name :=
  values.filterMap fun key =>
    (md.fields.find? fun d => d.name.chars = changeFunction key.toList).map FieldDef.name

/-- The values of `LayerType`. -/
def layerType : List String :=
  ["kBridgeSrc", "kBridgeDst", "kConvolution", "kConcate", "kShardData", "kDropout", "kInnerProduct", "kLabel",
    "kLMDBData", "kLRN", "kMnist", "kPooling", "kPrefetch", "kReLU", "kRGBImage", "kSoftmaxLoss", "kSlice", "kSplit",
    "kTanh", "kRBMVis", "kRBMHid"]

/-- The values of `UpdaterType`. -/
def updaterType : List String := ["kSGD", "kAdaGrad", "kRMSProp", "kNesterov"]

/-- The values of `ChangeMethod`. -/
def changeMethod : List String := ["kFixed", "kInverseT", "kInverse", "kExponential", "kLinear", "kStep", "kFixedStep"]

/-- `packsinga` with its ids and constraints. -/
def singaSchema : Schema where
  pkg := packsinga
  defId := definitionId
  groups message :=
    if message = layerProto.name then [fieldGroup layerProto layerType]
    else if message = updaterProto.name then [fieldGroup updaterProto updaterType, fieldGroup updaterProto changeMethod]
    else []

end Singa.Web
