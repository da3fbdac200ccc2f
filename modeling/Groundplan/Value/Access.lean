import Groundplan.Problem
import Groundplan.Value.Order
import Groundplan.Value.Text

/-!
# Access to parts of values

Elements of lists, fields of maps and objects, and the order in which collections are iterated.

## Main definitions

- `Value.element`: the part under an index or key
- `Value.field`: the field with a name
- `Value.iteration`: keys and values of a collection in the order of iteration
-/

namespace Groundplan

namespace Value

/-- The element of a list at an index. -/
def elementAt (items : List Value) (index : Decimal) (span : Option Span) : Outcome Value := do
  if !index.isWhole then
    let shown ← ofArithmetic index.toText
    fail (.typeMismatch "whole number" shown (some "list index")) span
  let position := index.toInt
  match if position < 0 then none else items[position.toNat]? with
  | some item => return item
  | none =>
    let shown ← ofArithmetic index.toText
    fail (.indexOutOfRange shown items.length) span

/-- The field of a map or object. -/
def fieldOf (fields : List (String × Value)) (name : String) (span : Option Span) :
    Outcome Value :=
  match Table.get? fields name with
  | some v => .ok v
  | none => fail (.keyNotFound name) span

/-- The part of a collection under a key: an element of a list, or a field of a map or object. -/
def element (collection key : Value) (span : Option Span) : Outcome Value :=
  if collection.isUnknown || key.isUnknown then .ok .unknown
  else
    match collection, key with
    | .list items, .number index => elementAt items index span
    | .list _, key => fail (.typeMismatch "number" key.label (some "list index")) span
    | .map fields, .string name | .object fields, .string name => fieldOf fields name span
    | .map _, key | .object _, key =>
      fail (.typeMismatch "string" key.label (some "map key")) span
    | .set _, _ =>
      fail (.unsupported "index" "set" ["convert the set to a list with tolist() first"]) span
    | collection, _ => fail (.unsupported "index" collection.label []) span

/-- The field with a name. -/
def field (target : Value) (name : String) (span : Option Span) : Outcome Value :=
  match target with
  | .unknown => .ok .unknown
  | .map fields | .object fields => fieldOf fields name span
  | target =>
    let hints :=
      if target.kind.isSequence then
        ["use a splat expression ([*]." ++ name ++ ") to read the attribute of every element"]
      else []
    fail (.unsupported ("read attribute '" ++ name ++ "' of") target.label hints) span

/-- Keys and values of a collection in the order of iteration: the elements of a list under their
places, those of a set under themselves, the fields of a map or object in the order of their
keys. -/
def iteration (collection : Value) (span : Option Span) : Outcome (List (Value × Value)) :=
  match collection with
  | .list items => .ok (items.zipIdx.map fun (item, place) => (ofNat place, item))
  | .set items => .ok (items.map fun item => (item, item))
  | .map fields | .object fields =>
    .ok ((Sorting.sortKeys fields).map fun (key, v) => (.string key, v))
  | collection =>
    fail (.unsupported "iterate over" collection.label
      ["a for expression needs a list, set, map or object"]) span

end Value

end Groundplan
