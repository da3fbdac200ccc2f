import Groundplan.Decimal.Binary
import Groundplan.Value.Order

/-!
# Plain data

Plain data is what callers and data formats hand in and what values are exported to: nulls, bools,
integers, floating-point numbers, texts, lists, sets and dictionaries.

## Main definitions

- `Plain`: plain data
- `Plain.setOf`: a set of plain data
- `Value.ofPlain`: the value that stands for plain data
- `Value.toPlain?`: export of a value that holds no unknown
-/

namespace Groundplan

/-- Plain data.  A decimal arises only by export, and a value may be embedded as it is. -/
inductive Plain where
  | null
  | bool (b : Bool)
  | integer (i : Int)
  | double (x : Double)
  | decimal (d : Decimal)
  | text (s : String)
  | list (items : List Plain)
  | set (items : List Plain)
  | dictionary (entries : List (Plain × Plain))
  | value (v : Value)
deriving Repr, Inhabited

namespace Plain

/-! ## Texts -/

mutual

/-- Plain data as messages show it. -/
def shown : Plain → String
  | .null => "None"
  | .bool b => if b then "True" else "False"
  | .integer i => String.ofList (Decimal.integerDigits i)
  | .double x => x.toText
  | .decimal d => "Decimal('" ++ d.toScientific ++ "')"
  | .text s => Text.quoteShown s
  | .list items => "[" ++ ", ".intercalate (shownItems items) ++ "]"
  | .set [] => "set()"
  | .set items => "\x7b" ++ ", ".intercalate (shownItems items) ++ "\x7d"
  | .dictionary entries => "\x7b" ++ ", ".intercalate (shownEntries entries) ++ "\x7d"
  | .value _ => "Value"

/-- The items of a collection as messages show them. -/
def shownItems : List Plain → List String
  | [] => []
  | p :: ps => shown p :: shownItems ps

/-- The entries of a dictionary as messages show them. -/
def shownEntries : List (Plain × Plain) → List String
  | [] => []
  | (k, v) :: entries => (shown k ++ ": " ++ shown v) :: shownEntries entries

end

/-- The text of plain data where it stands for itself: a text without its quotes. -/
def display : Plain → String
  | .text s => s
  | p => p.shown

/-- Name of the type of plain data in messages. -/
def typeName : Plain → String
  | .null => "NoneType"
  | .bool _ => "bool"
  | .integer _ => "int"
  | .double _ => "float"
  | .decimal _ => "Decimal"
  | .text _ => "str"
  | .list _ => "list"
  | .set _ => "set"
  | .dictionary _ => "dict"
  | .value _ => "Value"

/-! ## Sets -/

/-- The number that plain data counts as when it is compared: bools count as zero and one. -/
def numeric? : Plain → Option Decimal
  | .bool b => some (Decimal.ofNat b.toNat)
  | .integer i => some (Decimal.ofInt i)
  | .decimal d => some d
  | .double x => x.asDecimal?
  | _ => none

/-- Whether two items cannot both be in a set. -/
def coincide (a b : Plain) : Bool :=
  match a, b with
  | .null, .null => true
  | .text s, .text t => s == t
  | .double (.infinite m), .double (.infinite n) => m == n
  | a, b =>
    match a.numeric?, b.numeric? with
    | some m, some n => m.equals n
    | _, _ => false

/-- The set of some items; of items that coincide the first is kept. -/
def setOf (items : List Plain) : Plain :=
  .set (items.foldl (fun kept p => if kept.any p.coincide then kept else kept ++ [p]) [])

end Plain

namespace Value

/-! ## Import -/

mutual

/-- The value that stands for plain data: dictionaries become maps, the rest keeps its kind.  A
floating-point number becomes the decimal of its shortest text. -/
def ofPlain : Plain → Except NumeralProblem Value
  | .null => .ok .null
  | .bool b => .ok (.bool b)
  | .integer i => .ok (ofInt i)
  | .double x => x.toDecimal.map .number
  | .decimal d => .ok (.number d)
  | .text s => .ok (.string s)
  | .list items => (ofPlainItems items).map .list
  | .set items => (ofPlainItems items).map setOf
  | .dictionary entries => (ofPlainEntries entries).map fun fields => .map (Table.ofList fields)
  | .value v => .ok v

/-- The values that stand for some plain data. -/
def ofPlainItems : List Plain → Except NumeralProblem (List Value)
  | [] => .ok []
  | p :: ps => do
    let v ← ofPlain p
    return v :: (← ofPlainItems ps)

/-- The fields that stand for the entries of a dictionary. -/
def ofPlainEntries : List (Plain × Plain) → Except NumeralProblem (List (String × Value))
  | [] => .ok []
  | (k, p) :: entries => do
    let v ← ofPlain p
    return (k.display, v) :: (← ofPlainEntries entries)

end

/-- The number that plain data write.  Truth values are no numbers. -/
def numberOfPlain : Plain → Except NumeralProblem Value
  | .text s => (Decimal.ofText s).map .number
  | .bool _ => .error .truthValue
  | p => ofPlain p

/-! ## Export -/

mutual

/-- The plain data of a value, unless it holds unknown. -/
def toPlain? : Value → Option Plain
  | .null => some .null
  | .unknown => none
  | .bool b => some (.bool b)
  | .number n => some (.decimal n)
  | .string s => some (.text s)
  | .list items => (toPlainItems? items).map .list
  | .set items => (toPlainItems? items).map .list
  | .map entries => (toPlainEntries? entries).map .dictionary
  | .object fields => (toPlainEntries? fields).map .dictionary

/-- The plain data of some values. -/
def toPlainItems? : List Value → Option (List Plain)
  | [] => some []
  | v :: vs => do
    let p ← toPlain? v
    return p :: (← toPlainItems? vs)

/-- The entries of the dictionary of some fields. -/
def toPlainEntries? : List (String × Value) → Option (List (Plain × Plain))
  | [] => some []
  | (k, v) :: fields => do
    let p ← toPlain? v
    return (.text k, p) :: (← toPlainEntries? fields)

end

end Value

end Groundplan
