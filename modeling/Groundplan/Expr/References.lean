import Groundplan.Expr.Basic

/-!
# References of expressions

All symbols that an expression mentions, found without evaluating anything.  Both branches of a
conditional count: the references are an upper bound of what evaluation can read.

## Main definitions

- `Expr.references`: the symbols, in the order of the tree and with repetitions
- `Expr.declarationReferences`: those of them that are declarations
-/

namespace Groundplan

mutual

/-- The symbols that an expression mentions. -/
def Expr.references : Expr → List SymbolPath
  | .literal .. => []
  | .ref _ path => [path]
  | .index _ collection key => collection.references ++ key.references
  | .access _ target _ => target.references
  | .call _ _ arguments => referencesOfAll arguments
  | .conditional _ condition whenTrue whenFalse =>
    condition.references ++ whenTrue.references ++ whenFalse.references
  | .binary _ _ left right => left.references ++ right.references
  | .unary _ _ operand => operand.references
  | .list _ items => referencesOfAll items
  | .object _ items => referencesOfPairs items
  | .comprehension _ collection _ _ filter key value _ =>
    collection.references ++ value.references
      ++ (match key with
        | some key => key.references
        | none => [])
      ++ (match filter with
        | some filter => filter.references
        | none => [])
  | .splat _ source path => source.references ++ referencesOfSteps path
  | .template _ parts => referencesOfParts parts
  | .stray directive => directive.references

/-- The symbols that some expressions mention. -/
def referencesOfAll : List Expr → List SymbolPath
  | [] => []
  | e :: es => e.references ++ referencesOfAll es

/-- The symbols that keys and values mention. -/
def referencesOfPairs : List (Expr × Expr) → List SymbolPath
  | [] => []
  | (key, value) :: rest => key.references ++ value.references ++ referencesOfPairs rest

/-- The symbols that the steps of a splat mention. -/
def referencesOfSteps : List Step → List SymbolPath
  | [] => []
  | .access _ :: rest => referencesOfSteps rest
  | .index key :: rest => key.references ++ referencesOfSteps rest

/-- The symbols that parts of a template mention. -/
def referencesOfParts : List Part → List SymbolPath
  | [] => []
  | .text _ :: rest => referencesOfParts rest
  | .interpolation expression :: rest => expression.references ++ referencesOfParts rest
  | .directive directive :: rest => directive.references ++ referencesOfParts rest

/-- The symbols that a directive mentions. -/
def Directive.references : Directive → List SymbolPath
  | .ifElse _ condition thenParts elseParts =>
    condition.references ++ referencesOfParts thenParts ++ referencesOfParts elseParts
  | .forEach _ collection _ _ body => collection.references ++ referencesOfParts body

end

/-- The declarations that an expression mentions. -/
def Expr.declarationReferences (e : Expr) : List SymbolPath :=
  e.references.filter (·.kind.isReferenceable)

end Groundplan
