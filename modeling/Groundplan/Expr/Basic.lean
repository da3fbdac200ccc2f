import Groundplan.Operator
import Groundplan.Source
import Groundplan.Symbol
import Groundplan.Value.Basic

/-!
# Expressions

Trees of configuration expressions.  Templates consist of parts, and some parts are directives;
a directive that stands where a value is needed is kept in the tree and refused by evaluation.

## Main definitions

- `Expr`, `Step`, `Part`, `Directive`
- `Expr.span`: the place of an expression
- `Expr.desugarSplat`: the comprehension that a splat stands for
-/

namespace Groundplan

mutual

/-- An expression; every form carries its place in the source. -/
inductive Expr where
  | literal (span : Option Span) (value : Value)
  | ref (span : Option Span) (path : SymbolPath)
  | index (span : Option Span) (collection key : Expr)
  | access (span : Option Span) (target : Expr) (name : String)
  | call (span : Option Span) (function : String) (arguments : List Expr)
  | conditional (span : Option Span) (condition whenTrue whenFalse : Expr)
  | binary (span : Option Span) (operator : Operator) (left right : Expr)
  | unary (span : Option Span) (operator : Operator) (operand : Expr)
  | list (span : Option Span) (items : List Expr)
  | object (span : Option Span) (items : List (Expr × Expr))
  /-- A comprehension: its collection, variables for key and value, filter, key and value.  With a
  key it makes a map, and with `grouping` a map of the lists of values that share a key. -/
  | comprehension (span : Option Span) (collection : Expr) (keyName : Option String)
      (valueName : String) (filter key : Option Expr) (value : Expr) (grouping : Bool)
  | splat (span : Option Span) (source : Expr) (path : List Step)
  | template (span : Option Span) (parts : List Part)
  /-- A directive where a value is needed. -/
  | stray (directive : Directive)

/-- A step of a splat, applied to every element. -/
inductive Step where
  | access (name : String)
  | index (key : Expr)

/-- A part of a template. -/
inductive Part where
  | text (s : String)
  | interpolation (expression : Expr)
  | directive (directive : Directive)

/-- A directive of a template. -/
inductive Directive where
  | ifElse (span : Option Span) (condition : Expr) (thenParts elseParts : List Part)
  | forEach (span : Option Span) (collection : Expr) (keyName : Option String)
      (valueName : String) (body : List Part)

end

namespace Directive

/-- The place of a directive. -/
def span : Directive → Option Span
  | .ifElse span .. | .forEach span .. => span

/-- Name of the form of a directive. -/
def form : Directive → String
  | .ifElse .. => "TemplateIf"
  | .forEach .. => "TemplateFor"

end Directive

namespace Expr

/-- The place of an expression. -/
def span : Expr → Option Span
  | .literal span .. | .ref span .. | .index span .. | .access span .. | .call span ..
  | .conditional span .. | .binary span .. | .unary span .. | .list span .. | .object span ..
  | .comprehension span .. | .splat span .. | .template span .. => span
  | .stray directive => directive.span

/-! ## Splats -/

/-- Apply the steps of a splat at `span` to an expression, left to right. -/
def applySteps (span : Option Span) (target : Expr) (path : List Step) : Expr :=
  path.foldl (fun target step =>
    match step with
    | .access name => .access span target name
    | .index key => .index span target key) target

/-- The comprehension `[for item in source : item.a.b]` that the splat `source[*].a.b` stands
for.  The element has a name that no identifier spells, so no name of a user is captured. -/
def desugarSplat (span : Option Span) (source : Expr) (path : List Step) : Expr :=
  .comprehension span source none SymbolPath.splatItem.name none none
    (applySteps span (.ref span SymbolPath.splatItem) path) false

end Expr

end Groundplan
