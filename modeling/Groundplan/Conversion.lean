import Groundplan.Constraint.Basic
import Groundplan.Decimal.Literal
import Groundplan.Problem
import Groundplan.Value.Order

/-!
# Conversions

Operators never change the kind of a value; only these conversions do.  Unknown converts to
unknown and null to null, whatever the target.

## Main definitions

- `Value.toStringValue`, `toNumberValue`, `toBoolValue`, `toListValue`, `toSetValue`, `toMapValue`
- `Value.primitiveText`: the text of a string, number or bool
- `Value.convert`: conversion to a type constraint
-/

namespace Groundplan

namespace Value

/-! ## Conversions between kinds -/

/-- Fail to convert a value. -/
def refuse {α : Type} (v : Value) (target : String) (detail : Option String) : Outcome α :=
  fail (.conversion v.label target detail) none

/-- The text of a string, number or bool. -/
def primitiveText : Value → Outcome String
  | .string s => .ok s
  | .number n => ofArithmetic n.toText
  | .bool b => .ok (if b then "true" else "false")
  | v => v.refuse "string" none

/-- Strings, numbers and bools to strings. -/
def toStringValue : Value → Outcome Value
  | .null => .ok .null
  | .unknown => .ok .unknown
  | v => v.primitiveText.map .string

/-- The number that a strictly formed text writes. -/
def numberOfText (s : String) : Outcome Decimal :=
  if Numeral.isLiteral s then
    match Decimal.ofText s with
    | .ok n => .ok n
    | .error _ => .error (.defect (.signal .invalidOperation))
  else
    (Value.string s).refuse "number" (some ("'" ++ s ++ "' is not a decimal number"))

/-- Numbers, and strings that write one, to numbers. -/
def toNumberValue : Value → Outcome Value
  | .string s => (numberOfText s).map .number
  | v =>
    match v with
    | .null | .unknown | .number _ => .ok v
    | _ => v.refuse "number" none

/-- Bools, and the strings `true` and `false`, to bools. -/
def toBoolValue : Value → Outcome Value
  | .string s =>
    if s == "true" then .ok (.bool true)
    else if s == "false" then .ok (.bool false)
    else
      (Value.string s).refuse "bool" (some ("'" ++ s ++ "' is not \"true\" or \"false\""))
  | v =>
    match v with
    | .null | .unknown | .bool _ => .ok v
    | _ => v.refuse "bool" none

/-- Lists, and sets in ascending order, to lists. -/
def toListValue : Value → Outcome Value
  | .set items => .ok (.list (sorted items))
  | v =>
    match v with
    | .null | .unknown | .list _ => .ok v
    | _ => v.refuse "list" none

/-- Sets, and lists without their repetitions, to sets.  A list that holds unknown converts to
unknown, because its elements may turn out equal. -/
def toSetValue : Value → Outcome Value
  | .list items => .ok (if anyContainsUnknown items then .unknown else setOf items)
  | v =>
    match v with
    | .null | .unknown | .set _ => .ok v
    | _ => v.refuse "set" none

/-- The kinds of known values, each once, in the order of their names. -/
def kindLabels (values : List Value) : List String :=
  Sorting.sortTexts ((values.filter fun v => !v.isUnknown).map label).eraseDups

/-- Maps, and objects whose known fields have one kind, to maps. -/
def toMapValue : Value → Outcome Value
  | .object fields =>
    let labels := kindLabels (fields.map Prod.snd)
    if 1 < labels.length then
      (Value.object fields).refuse "map"
        (some ("attribute values have mixed kinds (" ++ ", ".intercalate labels ++ ")"))
    else .ok (.map fields)
  | v =>
    match v with
    | .null | .unknown | .map _ => .ok v
    | _ => v.refuse "map" none

/-! ## Conversion to constraints -/

/-- Tell a failed conversion of a part as a failure of the whole to which it belongs. -/
def within (part : Value) (whole : Constraint) (r : Outcome Value) : Outcome Value :=
  match r with
  | .error (.error e) =>
    if e.problem.category = .conversion then part.refuse whole.name (some e.problem.message)
    else r
  | _ => r

/-- The elements of a sequence. -/
def items? : Value → Option (List Value)
  | .list items | .set items => some items
  | _ => none

/-- The fields of a map or object. -/
def fields? : Value → Option (List (String × Value))
  | .map fields | .object fields => some fields
  | _ => none

/-- The first key, in ascending order, that is not one of the attributes' names. -/
def unexpectedKey? (fields : List (String × Value)) (attributes : List (String × Constraint)) :
    Option String :=
  (Sorting.sortTexts ((Table.keys fields).filter fun key => !attributes.any (·.1 == key))).head?

mutual

/-- Convert a value to satisfy a constraint.  Collections are converted element by element.  An
object constraint is closed: missing attributes become null and other attributes are refused. -/
def convert (v : Value) : Constraint → Outcome Value
  | .any => .ok v
  | .string => toStringValue v
  | .number => toNumberValue v
  | .bool => toBoolValue v
  | .list element =>
    if v.isNull || v.isUnknown then .ok v
    else
      match v.items? with
      | none => v.refuse (Constraint.list element).name none
      | some items => do
        let converted ← items.mapM fun item =>
          within item (.list element) (convert item element)
        return .list (if v.kind = .set then sorted converted else converted)
  | .set element =>
    if v.isNull || v.isUnknown then .ok v
    else
      match v.items? with
      | none => v.refuse (Constraint.set element).name none
      | some items => do
        let converted ← items.mapM fun item =>
          within item (.set element) (convert item element)
        return if anyContainsUnknown converted then .unknown else setOf converted
  | .map element =>
    if v.isNull || v.isUnknown then .ok v
    else
      match v.fields? with
      | none => v.refuse (Constraint.map element).name none
      | some fields => do
        let converted ← fields.mapM fun (key, item) => do
          return (key, ← within item (.map element) (convert item element))
        return .map converted
  | .object attributes =>
    if v.isNull || v.isUnknown then .ok v
    else
      match v.fields? with
      | none => v.refuse (Constraint.object attributes).name none
      | some fields =>
        match unexpectedKey? fields attributes with
        | some key =>
          v.refuse (Constraint.object attributes).name
            (some ("unexpected attribute '" ++ key ++ "'"))
        | none => do
          let converted ← convertAttributes (.object attributes) fields attributes
          return .object (Table.ofList converted)

/-- Convert the fields that attributes ask for, in the order of the attributes. -/
def convertAttributes (whole : Constraint) (fields : List (String × Value)) :
    List (String × Constraint) → Outcome (List (String × Value))
  | [] => .ok []
  | (key, constraint) :: rest => do
    let item := (Table.get? fields key).getD .null
    let converted ← within item whole (convert item constraint)
    return (key, converted) :: (← convertAttributes whole fields rest)

end

end Value

end Groundplan
