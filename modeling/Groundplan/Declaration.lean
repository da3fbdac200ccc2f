import Groundplan.Constraint.Basic
import Groundplan.Expr.References
import Groundplan.Sorting

/-!
# Declarations

A configuration is a list of declarations: input variables, local values, resources and outputs.
Every declaration has an address, under which others refer to it.

## Main definitions

- `Declaration`
- `Declaration.symbol`, `Declaration.address`: what a declaration is called
- `Declaration.expressions`: the expressions that it owns
- `Declaration.references`: the declarations that it depends on
-/

namespace Groundplan

/-! ## The kinds of declarations -/

/-- A condition on the value of an input variable. -/
structure Validation where
  condition : Expr
  /-- What is said about a value that does not satisfy the condition. -/
  complaint : String
  span : Option Span

/-- An input variable. -/
structure InputVariable where
  name : String
  constraint : Option Constraint
  default : Option Value
  validations : List Validation
  span : Option Span

/-- A named value. -/
structure LocalValue where
  name : String
  expression : Expr
  span : Option Span

/-- Flags that are handed on with a resource. -/
structure Lifecycle where
  createBeforeDestroy : Bool
  preventDestroy : Bool
  ignoreChanges : List String
deriving DecidableEq, Repr, Inhabited

/-- No flag set. -/
def Lifecycle.none : Lifecycle := ⟨false, false, []⟩

/-- A resource, or a template of resources if it has a source of multiplicity. -/
structure Resource where
  /-- The type of the resource. -/
  type : String
  name : String
  arguments : Table String Expr
  /-- The expression whose value tells how many instances there are. -/
  multiplicity : Option Expr
  dependsOn : List SymbolPath
  lifecycle : Lifecycle
  /-- Attributes that are known only after the resource has been made. -/
  computed : List String
  span : Option Span

/-- A value that is handed out. -/
structure OutputValue where
  name : String
  expression : Expr
  sensitive : Bool
  dependsOn : List SymbolPath
  span : Option Span

/-- A declaration. -/
inductive Declaration where
  | input (variableDeclared : InputVariable)
  | localValue (value : LocalValue)
  | resource (resource : Resource)
  | output (output : OutputValue)

namespace Resource

/-- The path by which a resource is referred to. -/
def symbol (r : Resource) : SymbolPath :=
  ⟨.resource, r.type ++ "." ++ r.name⟩

/-- Address of a resource. -/
def address (r : Resource) : String :=
  r.symbol.address

end Resource

namespace Declaration

/-- The path by which a declaration is referred to. -/
def symbol : Declaration → SymbolPath
  | .input v => ⟨.variableName, v.name⟩
  | .localValue v => ⟨.localName, v.name⟩
  | .resource r => r.symbol
  | .output o => ⟨.output, o.name⟩

/-- Address of a declaration. -/
def address (d : Declaration) : String :=
  d.symbol.address

/-- Place of a declaration. -/
def span : Declaration → Option Span
  | .input v => v.span
  | .localValue v => v.span
  | .resource r => r.span
  | .output o => o.span

/-- The expressions that a declaration owns, each with the name of its role. -/
def expressions : Declaration → List (String × Expr)
  | .input v =>
    v.validations.zipIdx.map fun (rule, i) =>
      ("validation[" ++ toString i ++ "]", rule.condition)
  | .localValue v => [("value", v.expression)]
  | .output o => [("value", o.expression)]
  | .resource r => (r.multiplicity.toList.map fun e => ("multiplicity", e)) ++ r.arguments

/-- References that are stated and not read off an expression. -/
def dependsOn : Declaration → List SymbolPath
  | .resource r => r.dependsOn
  | .output o => o.dependsOn
  | .input _ | .localValue _ => []

/-- Whether a reference of a declaration does not count: the conditions of an input variable read
the variable itself. -/
def isOwn (d : Declaration) (path : SymbolPath) : Bool :=
  match d with
  | .input _ => path == d.symbol
  | _ => false

/-- The declarations that a declaration depends on, each once and in the order of their
addresses. -/
def references (d : Declaration) : List SymbolPath :=
  let read := d.expressions.flatMap fun (_, e) => e.declarationReferences
  let found := (read ++ d.dependsOn).filter fun path => !d.isOwn path
  Sorting.sortBy (fun a b => decide (a.address ≤ b.address)) found.eraseDups

end Declaration

end Groundplan
