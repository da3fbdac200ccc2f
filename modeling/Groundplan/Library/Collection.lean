import Groundplan.Library.Arguments

/-!
# Functions on collections

## Main definitions

- `Library.merge`, `flatten`, `concat`, `zipmap`, `elementAt`, `coalesce`, `compact`, `range`,
  `slice`: the functions as they run on checked arguments
- `Library.collectionFunctions`: all functions on collections with their signatures
-/

namespace Groundplan

namespace Library

/-! ## Maps and objects -/

/-- Union of maps and objects, null counting as empty; later arguments win.  The union is a map if
something is given and all that is given are maps, and an object otherwise. -/
def merge (args : List Value) : Value :=
  let given := args.filter fun arg => !arg.isNull
  let merged := given.foldl (fun fields arg => Table.putAll fields (arg.fields?.getD [])) []
  if !given.isEmpty && given.all (·.kind == .map) then .map merged else .object merged

/-- The value under a key, or else the default if there is one. -/
def lookupKey (fields : List (String × Value)) (key : String) (default : Option Value) :
    Outcome Value :=
  match (Table.get? fields key).or default with
  | some v => .ok v
  | none => fail (.keyNotFound key) none

/-- The table of keys and values, which must be equally many; a map if the values that remain have
one kind, and otherwise an object. -/
def zipmap (keys values : List Value) : Outcome Value := do
  let names ← texts "zipmap" 1 keys
  if names.length ≠ values.length then
    fail (.functionCall "zipmap"
      ("number of keys (" ++ toString names.length ++ ") does not match number of values ("
        ++ toString values.length ++ ")")) none
  let fields := Table.ofList (names.zip values)
  let kinds := (fields.map fun field => field.2.kind).eraseDups
  return if kinds.length ≤ 1 then .map fields else .object fields

/-- The fields in ascending order of their keys. -/
def sortedFields (v : Value) : List (String × Value) :=
  Sorting.sortKeys (v.fields?.getD [])

/-! ## Lists -/

mutual

/-- What a value contributes to a flat list: the contributions of its elements if it is a list,
and otherwise the value itself. -/
def leaves : Value → List Value
  | .list items => leavesOfAll items
  | .null => [.null]
  | .bool b => [.bool b]
  | .number n => [.number n]
  | .string s => [.string s]
  | .set items => [.set items]
  | .map entries => [.map entries]
  | .object fields => [.object fields]
  | .unknown => [.unknown]

/-- What values contribute to a flat list. -/
def leavesOfAll : List Value → List Value
  | [] => []
  | v :: vs => leaves v ++ leavesOfAll vs

end

/-- Nested lists made into one list. -/
def flatten (items : List Value) : Value :=
  .list (leavesOfAll items)

/-- Lists end to end. -/
def concat (lists : List Value) : Value :=
  .list (lists.flatMap fun list => list.items?.getD [])

/-- The element at an index, counting on from the start behind the end of the list. -/
def elementAt (items : List Value) (index : Value) : Outcome Value := do
  let position ← wholeNumber "element" 2 index
  if items.isEmpty then
    fail (.functionCall "element" "cannot use element function with an empty list") none
  if position < 0 then
    fail (.functionCall "element" "cannot use element function with a negative index") none
  match items[(position.toNat % items.length)]? with
  | some item => return item
  | none => unsuited "element"

/-- Whether a value is null or the empty string. -/
def isVoid : Value → Bool
  | .null => true
  | .string s => s.isEmpty
  | _ => false

/-- The first argument that is not null or empty; unknown if that comes before any such. -/
def coalesce : List Value → Outcome Value
  | [] => fail (.functionCall "coalesce" "no non-null, non-empty-string arguments") none
  | arg :: args => if isVoid arg then coalesce args else .ok arg

/-- The strings of a list without nulls and empty strings. -/
def compact : List Value → Outcome (List Value)
  | [] => .ok []
  | item :: items => do
    if isVoid item then compact items
    else
      if item.kind ≠ .string then
        fail (.argumentType "compact" 1 "list of string" ("list containing " ++ item.label)) none
      return item :: (← compact items)

/-- The elements from one index up to another. -/
def slice (items : List Value) (start stop : Value) : Outcome Value := do
  let first ← wholeNumber "slice" 2 start
  let last ← wholeNumber "slice" 3 stop
  let size : Int := items.length
  if first < 0 || size < first then
    fail (.indexOutOfRange (← writeInt first) size) none
  if last < first || size < last then
    fail (.indexOutOfRange (← writeInt last) size) none
  return .list ((items.take last.toNat).drop first.toNat)

/-! ## Ranges -/

/-- The most numbers that a range may hold. -/
def rangeLimit : Nat := 1024

/-- The numbers from `current` on, each the one before it plus `step`, that lie before `limit` in
the direction of the step; `room` more numbers are allowed. -/
def rangeFrom (limit step : Decimal) : Nat → Decimal → Outcome (List Decimal)
  | room, current =>
    let inside := if step.negative then limit.less current else current.less limit
    if !inside then .ok []
    else
      match room with
      | 0 => fail (.functionCall "range" "more than 1024 values were generated") none
      | room + 1 => do
        let next ← ofArithmetic (Decimal.Context.standard.add current step)
        return current :: (← rangeFrom limit step room next)

/-- The numbers of a range.  Start defaults to zero and step to one in the direction of the limit;
one argument is the limit.  The direction is judged with fewer digits than numbers have. -/
def range (args : List Decimal) : Outcome (List Decimal) := do
  let one := Decimal.ofNat 1
  let (start, limit, step) ← match args with
    | [limit] => pure (Decimal.ofNat 0, limit, one)
    | [start, limit] => pure (start, limit, if limit.less start then one.negate else one)
    | [start, limit, step] => pure (start, limit, step)
    | _ => unsuited "range"
  if step.isZero then fail (.functionCall "range" "step must not be zero") none
  let distance ← ofArithmetic (Decimal.Context.coarse.subtract limit start)
  let direction ← ofArithmetic (Decimal.Context.coarse.multiply distance step)
  if direction.sign < 0 then return []
  rangeFrom limit step rangeLimit start

/-! ## The functions -/

/-- Signature with required parameters only. -/
def plainSignature (name : String) (params : List Param) (policy : UnknownPolicy) : Signature :=
  ⟨name, params, none, 0, policy⟩

/-- Lists and sets. -/
def sequenceKinds : List Kind := [.list, .set]

/-- Maps and objects. -/
def keyedKinds : List Kind := [.map, .object]

/-- Number of elements, fields or characters. -/
def lengthOf : Value → Outcome Value
  | .string s => .ok (.ofNat s.length)
  | v =>
    match v.length? with
    | some n => .ok (.ofNat n)
    | none => unsuited "length"

/-- All functions on collections. -/
def collectionFunctions : List Function := [
  ⟨⟨"merge", [], some (Param.of "maps" keyedKinds).orNull, 0, .shallow⟩,
    fun args => .ok (merge args)⟩,
  ⟨plainSignature "flatten" [.of "list" sequenceKinds] .deep,
    fun
    | [list] => .ok (flatten (list.items?.getD []))
    | _ => unsuited "flatten"⟩,
  ⟨plainSignature "distinct" [.of "list" [.list]] .deep,
    fun
    | [.list items] => .ok (.list (Value.distinct items))
    | _ => unsuited "distinct"⟩,
  ⟨⟨"concat", [], some (.of "lists" [.list]), 1, .shallow⟩, fun args => .ok (concat args)⟩,
  ⟨plainSignature "lookup"
      [.of "map" keyedKinds, .of "key" [.string], (Param.any "default").orNothing.orNull] .shallow,
    fun
    | [map, .string key] => lookupKey (map.fields?.getD []) key none
    | [map, .string key, default] => lookupKey (map.fields?.getD []) key (some default)
    | _ => unsuited "lookup"⟩,
  ⟨plainSignature "zipmap" [.of "keys" [.list], .of "values" [.list]] .deep,
    fun
    | [.list keys, .list values] => zipmap keys values
    | _ => unsuited "zipmap"⟩,
  ⟨plainSignature "length" [.of "value" (.string :: sequenceKinds ++ keyedKinds)] .shallow,
    fun
    | [v] => lengthOf v
    | _ => unsuited "length"⟩,
  ⟨plainSignature "keys" [.of "map" keyedKinds] .shallow,
    fun
    | [map] => .ok (.list ((sortedFields map).map fun field => .string field.1))
    | _ => unsuited "keys"⟩,
  ⟨plainSignature "values" [.of "map" keyedKinds] .shallow,
    fun
    | [map] => .ok (.list ((sortedFields map).map Prod.snd))
    | _ => unsuited "values"⟩,
  ⟨plainSignature "contains" [.of "list" sequenceKinds, (Param.any "value").orNull] .deep,
    fun
    | [list, v] => .ok (.bool (v.among (list.items?.getD [])))
    | _ => unsuited "contains"⟩,
  ⟨plainSignature "element" [.of "list" [.list], .of "index" [.number]] .shallow,
    fun
    | [.list items, index] => elementAt items index
    | _ => unsuited "element"⟩,
  ⟨⟨"coalesce", [], some (Param.any "values").orNull, 1, .accept⟩, coalesce⟩,
  ⟨plainSignature "compact" [.of "list" [.list]] .deep,
    fun
    | [.list items] => (compact items).map .list
    | _ => unsuited "compact"⟩,
  ⟨plainSignature "range"
      [.of "start" [.number], (Param.of "limit" [.number]).orNothing,
        (Param.of "step" [.number]).orNothing] .shallow,
    fun args => do
      let found ← range (← numbers "range" 1 args)
      return .list (found.map .number)⟩,
  ⟨plainSignature "slice" [.of "list" [.list], .of "start" [.number], .of "end" [.number]] .shallow,
    fun
    | [.list items, start, stop] => slice items start stop
    | _ => unsuited "slice"⟩,
  ⟨plainSignature "reverse" [.of "list" [.list]] .shallow,
    fun
    | [.list items] => .ok (.list items.reverse)
    | _ => unsuited "reverse"⟩,
  ⟨plainSignature "sort" [.of "list" sequenceKinds] .deep,
    fun
    | [list] => do
      let found ← texts "sort" 1 (list.items?.getD [])
      return .list ((Sorting.sortTexts found).map .string)
    | _ => unsuited "sort"⟩]

end Library

end Groundplan
