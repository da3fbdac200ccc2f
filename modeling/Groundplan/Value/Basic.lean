import Groundplan.Decimal.Basic
import Groundplan.Table

/-!
# Values of the configuration language

A value is null, a bool, a number, a string, a list, a set, a map, an object, or unknown.  Maps
and objects are tables in insertion order; sets list their elements in the order of values.
Unknown stands for a value that exists but is learnt only later.

## Main definitions

- `Value`: the values
- `Kind`: their kinds, in ascending order
- `Value.containsUnknown`: whether unknown occurs at any depth
- `Value.equals`: structural equality
-/

namespace Groundplan

/-! ## Values and kinds -/

/-- A value of the configuration language. -/
inductive Value where
  | null
  | bool (b : Bool)
  | number (n : Decimal)
  | string (s : String)
  | list (items : List Value)
  | set (items : List Value)
  | map (entries : List (String × Value))
  | object (fields : List (String × Value))
  | unknown
deriving Repr, Inhabited

/-- The kinds of values. -/
inductive Kind where
  | null
  | bool
  | number
  | string
  | list
  | set
  | map
  | object
  | unknown
deriving DecidableEq, Repr, Inhabited

namespace Kind

/-- Place of a kind among all kinds. -/
def rank : Kind → Nat
  | .null => 0
  | .bool => 1
  | .number => 2
  | .string => 3
  | .list => 4
  | .set => 5
  | .map => 6
  | .object => 7
  | .unknown => 8

/-- Name of a kind in messages. -/
def label : Kind → String
  | .null => "null"
  | .bool => "bool"
  | .number => "number"
  | .string => "string"
  | .list => "list"
  | .set => "set"
  | .map => "map"
  | .object => "object"
  | .unknown => "unknown"

/-- All kinds in ascending order. -/
def all : List Kind :=
  [.null, .bool, .number, .string, .list, .set, .map, .object, .unknown]

/-- Strings, numbers and bools, which have a plain text. -/
def isPrimitive : Kind → Bool
  | .string | .number | .bool => true
  | _ => false

/-- Lists and sets. -/
def isSequence : Kind → Bool
  | .list | .set => true
  | _ => false

/-- Maps and objects. -/
def isKeyed : Kind → Bool
  | .map | .object => true
  | _ => false

/-- Kinds whose values hold other values. -/
def isCollection (k : Kind) : Bool :=
  k.isSequence || k.isKeyed

end Kind

namespace Value

/-- The kind of a value. -/
def kind : Value → Kind
  | .null => .null
  | .bool _ => .bool
  | .number _ => .number
  | .string _ => .string
  | .list _ => .list
  | .set _ => .set
  | .map _ => .map
  | .object _ => .object
  | .unknown => .unknown

/-- Name of a value's kind in messages. -/
def label (v : Value) : String :=
  v.kind.label

/-- The whole number `i`. -/
def ofInt (i : Int) : Value :=
  .number (Decimal.ofInt i)

/-- The natural number `n`. -/
def ofNat (n : Nat) : Value :=
  .number (Decimal.ofNat n)

/-! ## Predicates -/

/-- Whether the value is null. -/
def isNull : Value → Bool
  | .null => true
  | _ => false

/-- Whether the value itself is unknown. -/
def isUnknown : Value → Bool
  | .unknown => true
  | _ => false

/-- Whether the value holds other values. -/
def isCollection (v : Value) : Bool :=
  v.kind.isCollection

/-- Whether the value is a number without a fractional part. -/
def isWholeNumber : Value → Bool
  | .number n => n.isWhole
  | _ => false

/-- Number of elements or fields of a collection. -/
def length? : Value → Option Nat
  | .list items | .set items => some items.length
  | .map entries | .object entries => some entries.length
  | _ => none

mutual

/-- Whether unknown occurs in the value at any depth. -/
def containsUnknown : Value → Bool
  | .unknown => true
  | .list items => anyContainsUnknown items
  | .set items => anyContainsUnknown items
  | .map entries => anyFieldContainsUnknown entries
  | .object fields => anyFieldContainsUnknown fields
  | .null | .bool _ | .number _ | .string _ => false

/-- Whether unknown occurs in one of the values at any depth. -/
def anyContainsUnknown : List Value → Bool
  | [] => false
  | v :: vs => containsUnknown v || anyContainsUnknown vs

/-- Whether unknown occurs in one of the fields' values at any depth. -/
def anyFieldContainsUnknown : List (String × Value) → Bool
  | [] => false
  | (_, v) :: fields => containsUnknown v || anyFieldContainsUnknown fields

end

/-! ## Equality -/

mutual

/-- Structural equality.  Numbers are compared numerically, lists place by place, sets by the
elements they hold, maps and objects by the values under their keys. -/
def equals : Value → Value → Bool
  | .null, .null => true
  | .unknown, .unknown => true
  | .bool a, .bool b => a == b
  | .number a, .number b => a.equals b
  | .string a, .string b => a == b
  | .list a, .list b => equalItems a b
  | .set a, .set b => a.length == b.length && eachAmong a b
  | .map a, .map b => a.length == b.length && eachFieldAmong a b
  | .object a, .object b => a.length == b.length && eachFieldAmong a b
  | _, _ => false

/-- Whether two lists of values are equal place by place. -/
def equalItems : List Value → List Value → Bool
  | [], [] => true
  | a :: as, b :: bs => equals a b && equalItems as bs
  | _, _ => false

/-- Whether every value of the first list equals one of the second. -/
def eachAmong : List Value → List Value → Bool
  | [], _ => true
  | a :: as, bs => bs.any (equals a) && eachAmong as bs

/-- Whether every field of the first table has an equal value in the second. -/
def eachFieldAmong : List (String × Value) → List (String × Value) → Bool
  | [], _ => true
  | (k, a) :: as, bs =>
    (match Table.get? bs k with
      | some b => equals a b
      | none => false) && eachFieldAmong as bs

end

end Value

end Groundplan
