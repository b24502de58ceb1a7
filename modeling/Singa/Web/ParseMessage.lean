import Singa.Base.Text
import Singa.Utils.Abort
import Singa.Web.Model

/-!
# `parseMessage` of `model.js`

A configuration is read entry by entry. Whether the next one is a field or a
message is decided by the first colon and the first opening brace of all that is
left, a value ends with the line, and a message ends where the braces are
balanced; quotation marks play no part in it. What is read is added to an object.
-/

namespace Singa.Web
set_option autoImplicit false

open Text

/-! ## Strings -/

/-- White space and line terminators. -/
def isTrimmed (c : Char) : Bool :=
  let n := c.toNat
  9 ≤ n && n ≤ 13 || n == 32 || n == 0xa0 || n == 0x1680 || 0x2000 ≤ n && n ≤ 0x200a || n == 0x2028 || n == 0x2029 ||
    n == 0x202f || n == 0x205f || n == 0x3000 || n == 0xfeff

/-- `trim`. -/
def trim (s : Str) : Str := strip isTrimmed s

/-- `indexOf`; `none` for -1. -/
def indexOf (s : Str) (c : Char) : Option Nat := s.findIdx? (· == c)

/-- `substr`. -/
def substr (s : Str) (start length : Nat) : Str := (s.drop start).take length

/-! ## Objects -/

/-- A value of a property; `inherited` is a function that every object inherits. -/
inductive JsValue where
  | text (s : Str)
  | object (props : List (Str × JsValue))
  | array (items : List JsValue)
  | inherited (key : Str)

abbrev JsObject := List (Str × JsValue)

/-- An assignment to a property. -/
def setProp : JsObject → Str → JsValue → JsObject
  | [], key, v => [(key, v)]
  | (key', v') :: o, key, v => if key' = key then (key, v) :: o else (key', v') :: setProp o key v

def JsValue.truthy : JsValue → Bool
  | text s => s ≠ []
  | _ => true

/-- Has an object a property `push` of its own, that is no function? -/
def JsValue.hasPush : JsValue → Bool
  | object props =>
    match props.lookup ['p', 'u', 's', 'h'] with
    | some v => v.truthy
    | none => false
  | _ => false

/-- `addField`. -/
def addField (result : JsObject) (key : Str) (value : JsValue) : Run JsObject :=
  let oldValue := match result.lookup key with
    | some v => some v
    | none => if key ∈ objectPrototype then some (.inherited key) else none
  match oldValue with
  | none => .ok (setProp result key value)
  | some (.array items) => .ok (setProp result key (.array (items ++ [value])))
  | some old =>
    if old.truthy then
      if old.hasPush then .error .typeError
      else if key = ['_', '_', 'p', 'r', 'o', 't', 'o', '_', '_'] then .error .prototype
      else .ok (setProp result key (.array [old, value]))
    else .ok (setProp result key value)

/-! ## The parser -/

/-- What `getNextConf` finds. -/
inductive Conf where
  | field (key value : Str)
  | message (key value : Str)

/-- How far it is to the brace that brings `num` to 0, or to the end. -/
def closing : Nat → Str → Nat
  | _, [] => 0
  | num, c :: cs =>
    let num := if c = '\x7b' then num + 1 else num
    let num := if c = '\x7d' then num - 1 else num
    if num = 0 then 0 else closing num cs + 1

/-- The text of a value, as it is taken over. -/
def fieldValue (raw : Str) : Str :=
  let value := trim raw
  if '"' ∈ value then substr value 1 (value.length - 2) else value

/-- `getNextConf`: what comes next, and what is left of `conf`. -/
def getNextConf (conf : Str) : Option (Conf × Str) :=
  let conf := trim conf
  match indexOf conf ':', indexOf conf '\x7b' with
  | some index1, index2 =>
    if ∀ i ∈ index2, index1 < i then
      let key := trim (substr conf 0 index1)
      let indexEnd := (indexOf conf '\n').getD conf.length
      some (.field key (fieldValue (substr conf (index1 + 1) (indexEnd - index1 - 1))), conf.drop (indexEnd + 1))
    else
      index2.map fun index2 => nextMessage conf index2
  | none, index2 => index2.map fun index2 => nextMessage conf index2
where
  nextMessage (conf : Str) (index2 : Nat) : Conf × Str :=
    let key := trim (substr conf 0 index2)
    let indexEnd := index2 + 1 + closing 1 (conf.drop (index2 + 1))
    (.message key (substr conf (index2 + 1) (indexEnd - index2 - 1)), conf.drop (indexEnd + 2))

/-- `parseMessage`. -/
def parseMessage : Nat → JsObject → Str → Run JsObject
  | 0, _, _ => .error .fuel
  | fuel + 1, result, conf =>
    match getNextConf conf with
    | none => .ok result
    | some (.message key value, conf) => do
      let value ← parseMessage fuel [] value
      let result ← addField result key (.object value)
      parseMessage fuel result conf
    | some (.field key value, conf) => do
      let result ← addField result key (.text value)
      parseMessage fuel result conf

end Singa.Web
