import Groundplan.Sorting
import Groundplan.Value.Basic

/-!
# Order of values

All values are ordered: first by kind, then by content.  Sequences are ordered like words.  Maps
and objects are ordered by their sorted keys and, with the same keys, by the values in that order.

## Main definitions

- `Value.compare`: the order
- `Value.sorted`: values in ascending order
- `Value.distinct`: values without repetitions, first occurrences kept
- `Value.setOf`: the set of some values
-/

namespace Groundplan

namespace Value

/-! ## Sorted keys -/

mutual

/-- The value with the fields of every map and object, at any depth, in the order of their keys. -/
def keySorted : Value → Value
  | .list items => .list (keySortedItems items)
  | .set items => .set (keySortedItems items)
  | .map entries => .map (Sorting.sortKeys (keySortedFields entries))
  | .object fields => .object (Sorting.sortKeys (keySortedFields fields))
  | .null => .null
  | .bool b => .bool b
  | .number n => .number n
  | .string s => .string s
  | .unknown => .unknown

/-- The values with the fields of every map and object in the order of their keys. -/
def keySortedItems : List Value → List Value
  | [] => []
  | v :: vs => keySorted v :: keySortedItems vs

/-- The fields with their values' fields in the order of their keys. -/
def keySortedFields : List (String × Value) → List (String × Value)
  | [] => []
  | (k, v) :: fields => (k, keySorted v) :: keySortedFields fields

end

/-! ## Comparison -/

/-- Order of texts by the code points of their characters. -/
def compareTexts (a b : String) : Ordering :=
  if a < b then .lt else if a = b then .eq else .gt

/-- Order of lists of texts, like that of words. -/
def compareKeys : List String → List String → Ordering
  | [], [] => .eq
  | [], _ :: _ => .lt
  | _ :: _, [] => .gt
  | a :: as, b :: bs => (compareTexts a b).then (compareKeys as bs)

mutual

/-- Order of values whose maps and objects have sorted keys. -/
def compareAligned : Value → Value → Ordering
  | .bool a, .bool b => Ord.compare a.toNat b.toNat
  | .number a, .number b => a.compare b
  | .string a, .string b => compareTexts a b
  | .list a, .list b => compareItems a b
  | .set a, .set b => compareItems a b
  | .map a, .map b => (compareKeys (Table.keys a) (Table.keys b)).then (compareFields a b)
  | .object a, .object b => (compareKeys (Table.keys a) (Table.keys b)).then (compareFields a b)
  | a, b => Ord.compare a.kind.rank b.kind.rank

/-- Order of sequences, like that of words. -/
def compareItems : List Value → List Value → Ordering
  | [], [] => .eq
  | [], _ :: _ => .lt
  | _ :: _, [] => .gt
  | a :: as, b :: bs => (compareAligned a b).then (compareItems as bs)

/-- Order of the values in two tables, like that of words. -/
def compareFields : List (String × Value) → List (String × Value) → Ordering
  | [], [] => .eq
  | [], _ :: _ => .lt
  | _ :: _, [] => .gt
  | (_, a) :: as, (_, b) :: bs => (compareAligned a b).then (compareFields as bs)

end

/-- The order of values. -/
def compare (a b : Value) : Ordering :=
  compareAligned a.keySorted b.keySorted

/-! ## Sorted and distinct values -/

/-- Values in ascending order. -/
def sorted (values : List Value) : List Value :=
  Sorting.sortBy (fun a b => compare a b != .gt) values

/-- Whether a value equals one of the values. -/
def among (v : Value) (values : List Value) : Bool :=
  values.any (equals v)

/-- Values without those that equal an earlier one, where `earlier` have come before. -/
def distinctAfter (earlier : List Value) : List Value → List Value
  | [] => []
  | v :: vs =>
    if v.among earlier then distinctAfter earlier vs else v :: distinctAfter (v :: earlier) vs

/-- Values without repetitions, first occurrences kept. -/
def distinct (values : List Value) : List Value :=
  distinctAfter [] values

/-- The set of some values. -/
def setOf (values : List Value) : Value :=
  .set (sorted (distinct values))

end Value

end Groundplan
