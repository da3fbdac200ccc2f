import Groundplan.Problem
import Groundplan.Symbol
import Groundplan.Table
import Groundplan.Value.Basic

/-!
# Scopes

A scope is a chain of frames.  A frame binds symbols to values or to computations that are run when
the symbol is looked up, and it may have a resolver, which answers for every symbol that no frame up
to it binds.

## Main definitions

- `Binding`, `Frame`, `Scope`
- `Scope.find`: what a look-up of a symbol meets first
- `Scope.lookup`: the value of a symbol
- `Scope.contains`: whether a frame binds a symbol

## Main statements

- `Scope.lookup_child_of_bound`: the innermost frame decides about what it binds
- `Scope.lookup_child_of_unbound`: it leaves all else to the frames around it
-/

namespace Groundplan

/-- What a symbol is bound to. -/
inductive Binding where
  | value (v : Value)
  /-- A computation that every look-up runs. -/
  | deferred (compute : Unit → Outcome Value)

/-- One level of a scope. -/
structure Frame where
  bindings : Table SymbolPath Binding
  /-- Answers for the symbols that are bound neither here nor further inside. -/
  resolver : Option (SymbolPath → Outcome Value)

/-- A chain of frames, the innermost first. -/
abbrev Scope := List Frame

/-- What a look-up meets first on its way outward. -/
inductive Found where
  | binding (b : Binding)
  | resolver (resolve : SymbolPath → Outcome Value)
  | missing

/-- The suspended computations that a look-up runs. -/
inductive Consultation where
  | deferred (path : SymbolPath)
  | resolver (path : SymbolPath)
deriving DecidableEq, Repr

namespace Scope

/-- The first frame that binds a symbol or has a resolver decides a look-up. -/
def find : Scope → SymbolPath → Found
  | [], _ => .missing
  | frame :: outer, path =>
    match Table.get? frame.bindings path with
    | some binding => .binding binding
    | none =>
      match frame.resolver with
      | some resolve => .resolver resolve
      | none => find outer path

/-- The value of a symbol. -/
def lookup (scope : Scope) (path : SymbolPath) (span : Option Span) : Outcome Value :=
  match scope.find path with
  | .binding (.value v) => .ok v
  | .binding (.deferred compute) => compute ()
  | .resolver resolve => resolve path
  | .missing => fail (.undefinedSymbol path.address []) span

/-- The suspended computations that looking up a symbol runs. -/
def consultations (scope : Scope) (path : SymbolPath) : List Consultation :=
  match scope.find path with
  | .binding (.value _) | .missing => []
  | .binding (.deferred _) => [.deferred path]
  | .resolver _ => [.resolver path]

/-- Whether a frame binds a symbol. -/
def contains (scope : Scope) (path : SymbolPath) : Bool :=
  scope.any fun frame => Table.has frame.bindings path

/-- The scope with a frame of values inside. -/
def child (scope : Scope) (bindings : List (SymbolPath × Value)) : Scope :=
  ⟨(Table.ofList bindings).map fun (path, v) => (path, .value v), none⟩ :: scope

/-! ## Frames of values -/

/-- What a look-up meets first in a scope with a frame of values inside. -/
theorem find_child (scope : Scope) (bindings : List (SymbolPath × Value)) (path : SymbolPath) :
    (scope.child bindings).find path =
      match Table.get? (Table.ofList bindings) path with
      | some v => .binding (.value v)
      | none => scope.find path := by
  have inside := Table.get?_map (Table.ofList bindings) Binding.value path
  cases found : Table.get? (Table.ofList bindings) path with
  | none => simp [child, find, inside, found]
  | some v => simp [child, find, inside, found]

/-- The innermost frame decides about what it binds. -/
theorem lookup_child_of_bound (scope : Scope) {bindings : List (SymbolPath × Value)}
    {path : SymbolPath} {v : Value} (span : Option Span)
    (bound : Table.get? (Table.ofList bindings) path = some v) :
    (scope.child bindings).lookup path span = .ok v := by
  simp [lookup, find_child, bound]

/-- The innermost frame leaves what it does not bind to the frames around it. -/
theorem lookup_child_of_unbound (scope : Scope) {bindings : List (SymbolPath × Value)}
    {path : SymbolPath} (span : Option Span)
    (unbound : Table.get? (Table.ofList bindings) path = none) :
    (scope.child bindings).lookup path span = scope.lookup path span := by
  simp [lookup, find_child, unbound]

end Scope

end Groundplan
