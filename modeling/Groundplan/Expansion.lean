import Groundplan.Conversion
import Groundplan.Declaration
import Groundplan.Node
import Groundplan.Value.Text

/-!
# Expansion of resource templates

A template is expanded into instances by the value of its multiplicity: a whole number makes as
many counted instances, and a set, map or object makes one named instance for every element or
key.  Lists are refused, so that the order of elements never tells instances apart.  While the
value is unknown the expansion is deferred.

## Main definitions

- `Expansion`, `Expansion.of`: the instances of a template
- `InstancePlan`, `Expansion.plan?`: which instances to make, to remove and to keep
-/

namespace Groundplan

/-- The ways in which a template is expanded. -/
inductive ExpansionMode where
  /-- A resource without a source of multiplicity. -/
  | single
  | count
  | forEach
  | deferred
deriving DecidableEq, Repr, Inhabited

/-- Name of a mode. -/
def ExpansionMode.label : ExpansionMode → String
  | .single => "single"
  | .count => "count"
  | .forEach => "for_each"
  | .deferred => "deferred"

/-- The instances of a template. -/
structure Expansion where
  address : String
  mode : ExpansionMode
  /-- The keys in their order; the only instance of a single resource has none. -/
  keys : List (Option InstanceKey)
  /-- What the scope of an instance binds. -/
  bindings : Table (Option InstanceKey) (Table SymbolPath Value)
deriving Repr, Inhabited

namespace Expansion

/-- Whether the instances are not known yet. -/
def isDeferred (e : Expansion) : Bool :=
  e.mode = .deferred

/-- What the scope of an instance binds. -/
def bindingsFor (e : Expansion) (key : Option InstanceKey) : Table SymbolPath Value :=
  (Table.get? e.bindings key).getD []

/-- The expansion of a resource without a source of multiplicity. -/
def single (address : String) : Expansion :=
  ⟨address, .single, [none], [(none, [])]⟩

/-- The expansion of a template whose instances are not known yet. -/
def deferred (address : String) : Expansion :=
  ⟨address, .deferred, [], []⟩

/-- A problem with the multiplicity of a template. -/
def refuse {α : Type} (role address expected found : String) (span : Option Span) : Outcome α :=
  fail (.typeMismatch expected found (some (role ++ " of " ++ address))) span

/-- Check the number of instances against the greatest allowed one, if that is not zero. -/
def checkSize (limit : Int) (address : String) (count : Nat) (span : Option Span) :
    Outcome Unit :=
  if limit ≠ 0 && limit < count then do
    let shown ← writeInt count
    refuse "multiplicity" address ("at most " ++ showInt limit ++ " instances") shown span
  else .ok ()

/-- Instances that are told apart by their places. -/
def counted (address : String) (count : Nat) : Expansion :=
  let keys : List (Option InstanceKey) :=
    (List.range count).map fun i => some (.index (Int.ofNat i))
  let bindings := (List.range count).map fun i =>
    (some (InstanceKey.index (Int.ofNat i)), [(SymbolPath.countIndex, Value.ofNat i)])
  ⟨address, .count, keys, bindings⟩

/-- Instances that are told apart by names, each with its value. -/
def named (address : String) (entries : List (String × Value)) : Expansion :=
  let entries := Sorting.sortKeys entries
  let binding (name : String) (v : Value) : Option InstanceKey × Table SymbolPath Value :=
    (some (.name name), [(SymbolPath.eachKey, .string name), (SymbolPath.eachValue, v)])
  ⟨address, .forEach, entries.map fun (name, _) => some (.name name),
    entries.map fun (name, v) => binding name v⟩

/-- The names of a set's elements, behind the `earlier` ones. -/
def elementNames (address : String) (span : Option Span) (earlier : List (String × Value)) :
    List Value → Outcome (List (String × Value))
  | [] => .ok earlier
  | element :: rest => do
    if !element.kind.isPrimitive then
      refuse "for_each" address "set of strings" ("set containing " ++ element.label) span
    let name ← element.primitiveText
    if Table.has earlier name then fail (.duplicateKey name) span
    elementNames address span (earlier ++ [(name, element)]) rest

/-- The expansion of a template by the value of its multiplicity. -/
def ofValue (limit : Int) (address : String) (source : Value) (span : Option Span) :
    Outcome Expansion :=
  match source with
  | .unknown => .ok (deferred address)
  | .number n => do
    if !n.isWhole || n.sign < 0 then
      let shown ← ofArithmetic n.toText
      refuse "count" address "whole non-negative number" shown span
    let count := n.toInt.toNat
    checkSize limit address count span
    return counted address count
  | .set items => do
    -- Elements that become known later on may become new instances.
    if Value.anyContainsUnknown items then return deferred address
    let entries ← elementNames address span [] items
    checkSize limit address entries.length span
    return named address entries
  | .map fields | .object fields => do
    checkSize limit address fields.length span
    return named address fields
  | .list _ =>
    fail (.unsupported "expand instances from" "list"
      ["convert the list with toset() so instance identity does not depend on element order"])
      span
  | source =>
    refuse "multiplicity" address "whole number, set, map or object" source.label span

/-- The expansion of a resource, given the value of its multiplicity if it has one. -/
def of (limit : Int) (r : Resource) (source : Option Value) : Outcome Expansion :=
  match source with
  | none => .ok (single r.address)
  | some v =>
    let span := match r.multiplicity with
      | some e => e.span
      | none => r.span
    ofValue limit r.address v span

end Expansion

/-! ## Plans -/

/-- Keys of instances to make, to remove and to keep. -/
structure InstancePlan where
  added : List (Option InstanceKey)
  removed : List (Option InstanceKey)
  retained : List (Option InstanceKey)
deriving DecidableEq, Repr, Inhabited

/-- Whether there is nothing to make or to remove. -/
def InstancePlan.isUnchanged (p : InstancePlan) : Bool :=
  p.added.isEmpty && p.removed.isEmpty

/-- Keys in their order, each once. -/
def sortedInstanceKeys (keys : List (Option InstanceKey)) : List (Option InstanceKey) :=
  Sorting.sortBy InstanceKey.optionAtMost keys.eraseDups

namespace Expansion

/-- The message about a plan for instances that are not known yet. -/
def noPlanMessage (e : Expansion) : String :=
  "cannot plan instances of " ++ e.address ++ ": expansion is deferred"

/-- What has to change for instances with the keys of an expansion to take the place of instances
with earlier keys; nothing can be said while the expansion is deferred. -/
def plan? (e : Expansion) (previous : List (Option InstanceKey)) : Option InstancePlan :=
  if e.isDeferred then none
  else
    -- The only instance of a single resource is not planned.
    let current := e.keys.filter Option.isSome
    some ⟨sortedInstanceKeys (current.filter (!previous.contains ·)),
      sortedInstanceKeys (previous.filter (!current.contains ·)),
      sortedInstanceKeys (current.filter (previous.contains ·))⟩

end Expansion

end Groundplan
