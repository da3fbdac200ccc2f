import Groundplan.Decimal.Literal
import Groundplan.Decimal.Power
import Groundplan.Diagnostic
import Groundplan.Operator

/-!
# Problems

A problem is why the evaluation of a configuration fails: a cause with the data its message needs.
An error is a problem at a place.  Apart from errors there are defects, which do not concern the
configuration but the tree or the number that was handed in, and which no node absorbs.

## Main definitions

- `Problem`, with `Problem.code`, `Problem.message`, `Problem.hints`, `Problem.category`
- `EvalError`: a problem, its place and related diagnostics
- `Defect`, `Fault`, `Outcome`: what a computation may end with
-/

namespace Groundplan

/-! ## Problems -/

/-- The families of problems that callers distinguish. -/
inductive Category where
  | type
  | conversion
  | undefinedSymbol
  | arity
  | cycle
  | duplicateKey
  | indexOutOfRange
  | keyNotFound
  | divisionByZero
  | functionCall
  | validation
  | configuration
deriving DecidableEq, Repr, Inhabited

/-- Whether problems of a family are about an index or key that is not there. -/
def Category.isIndexing : Category → Bool
  | .indexOutOfRange | .keyNotFound => true
  | _ => false

/-- Why the evaluation of a configuration fails. -/
inductive Problem where
  /-- A value of the wrong kind. -/
  | typeMismatch (expected found : String) (context : Option String)
  /-- An operation that a kind of values does not have. -/
  | unsupported (operation found : String) (hints : List String)
  /-- An argument of the wrong kind. -/
  | argumentType (function : String) (position : Int) (expected found : String)
  /-- A conversion between kinds that fails. -/
  | conversion (source target : String) (detail : Option String)
  /-- A symbol that nothing declares or binds. -/
  | undefinedSymbol (name : String) (hints : List String)
  /-- A function that the library does not have. -/
  | unknownFunction (name : String)
  /-- A wrong number of arguments. -/
  | arity (function expected : String) (found : Int)
  /-- A cycle of references, as the addresses that are on it. -/
  | cycle (path : List String)
  /-- A key that a comprehension or constructor produces twice. -/
  | duplicateKey (key : String)
  /-- An index outside of a list. -/
  | indexOutOfRange (index : String) (length : Int)
  /-- A key that a map or object does not have. -/
  | keyNotFound (key : String)
  | divisionByZero
  /-- A well-typed argument that a function refuses. -/
  | functionCall (function detail : String)
  /-- A result outside of what the arithmetic can hold. -/
  | arithmetic (operation detail : String)
  /-- A validation rule of a variable that does not hold. -/
  | validation (variableName detail : String)
  /-- A malformed batch of declarations or engine configuration. -/
  | configuration (detail : String) (hints : List String)
deriving DecidableEq, Repr, Inhabited

namespace Problem

/-- The family of a problem. -/
def category : Problem → Category
  | .typeMismatch .. | .unsupported .. | .argumentType .. => .type
  | .conversion .. => .conversion
  | .undefinedSymbol .. | .unknownFunction .. => .undefinedSymbol
  | .arity .. => .arity
  | .cycle .. => .cycle
  | .duplicateKey .. => .duplicateKey
  | .indexOutOfRange .. => .indexOutOfRange
  | .keyNotFound .. => .keyNotFound
  | .divisionByZero => .divisionByZero
  | .functionCall .. | .arithmetic .. => .functionCall
  | .validation .. => .validation
  | .configuration .. => .configuration

/-- Code of a problem in diagnostics. -/
def code (p : Problem) : String :=
  match p.category with
  | .type => "E201"
  | .conversion => "E202"
  | .undefinedSymbol => "E203"
  | .arity => "E204"
  | .cycle => "E301"
  | .duplicateKey => "E302"
  | .indexOutOfRange => "E303"
  | .keyNotFound => "E304"
  | .divisionByZero => "E305"
  | .functionCall => "E306"
  | .validation => "E307"
  | .configuration => "E308"

/-- A detail that is given and not empty, between two texts. -/
private def withDetail (before : String) (detail : Option String) (after : String) : String :=
  match detail with
  | none | some "" => ""
  | some d => before ++ d ++ after

/-- Text of a problem. -/
def message : Problem → String
  | .typeMismatch expected found context =>
    withDetail "" context ": " ++ "expected " ++ expected ++ ", found " ++ found
  | .unsupported operation found _ => "cannot " ++ operation ++ " a value of kind " ++ found
  | .argumentType function position expected found =>
    "function '" ++ function ++ "' argument " ++ showInt position ++ ": expected " ++ expected
      ++ ", found " ++ found
  | .conversion source target detail =>
    "cannot convert " ++ source ++ " to " ++ target ++ withDetail ": " detail ""
  | .undefinedSymbol name _ => "reference to undeclared symbol '" ++ name ++ "'"
  | .unknownFunction name => "call to unknown function '" ++ name ++ "'"
  | .arity function expected found =>
    "function '" ++ function ++ "' expects " ++ expected ++ " argument(s), got " ++ showInt found
  | .cycle path =>
    "cycle in references: " ++ " -> ".intercalate (path ++ path.take 1)
  | .duplicateKey key => "duplicate key '" ++ key ++ "' produced by for expression"
  | .indexOutOfRange index length =>
    "index " ++ index ++ " out of range for list of length " ++ showInt length
  | .keyNotFound key => "key '" ++ key ++ "' is not present"
  | .divisionByZero => "division by zero"
  | .functionCall function detail => "function '" ++ function ++ "': " ++ detail
  | .arithmetic operation detail =>
    "operator '" ++ operation ++ "': arithmetic error: " ++ detail
  | .validation variableName detail =>
    "invalid value for variable '" ++ variableName ++ "': " ++ detail
  | .configuration detail _ => detail

/-- Hints for solving a problem. -/
def hints : Problem → List String
  | .unsupported _ _ hints | .undefinedSymbol _ hints | .configuration _ hints => hints
  | .cycle _ => ["break the cycle by removing one of the references"]
  | .duplicateKey _ => ["use grouping mode ('...') to collect values sharing a key"]
  | _ => []

end Problem

/-! ## Errors -/

/-- A problem at a place. -/
structure EvalError where
  problem : Problem
  span : Option Span
  /-- Diagnostics of the attempts that led to the problem. -/
  related : List Diagnostic
deriving Repr, Inhabited

namespace EvalError

/-- The diagnostic of an error, about `subject`. -/
def diagnostic (e : EvalError) (subject : Option String) : Diagnostic where
  code := e.problem.code
  message := e.problem.message
  severity := .error
  span := e.span
  subject := subject
  hints := e.problem.hints
  related := e.related

/-- The error at `span`, unless it already has a place. -/
def placedAt (e : EvalError) (span : Option Span) : EvalError :=
  { e with span := e.span.or span }

end EvalError

/-! ## Outcomes -/

/-- What can be wrong with the tree or the numbers handed in. -/
inductive Defect where
  /-- An operator of one operand stands between two. -/
  | binaryOperator (operator : Operator)
  /-- An operator of two operands stands before one. -/
  | unaryOperator (operator : Operator)
  /-- A directive of the given form stands where a value is needed. -/
  | strayDirective (form : String)
  /-- A number cannot be written in the language's context. -/
  | signal (s : Decimal.Signal)
  /-- A result, shown as such, is infinite. -/
  | notFinite (shown : String)
  /-- A truth value stands where a number is needed. -/
  | truthValue
  /-- An integer has more digits than may be written or, if a count is given, read. -/
  | tooManyDigits (given : Option Nat)
deriving DecidableEq, Repr, Inhabited

/-- Text of a defect. -/
def Defect.message : Defect → String
  | .binaryOperator operator => "Unknown binary operator: Operator." ++ operator.name
  | .unaryOperator operator => "Unknown unary operator: Operator." ++ operator.name
  | .strayDirective form => "Unknown expression type: " ++ form
  | .signal s => s.report
  | .notFinite shown => NumeralProblem.notFiniteMessage shown
  | .truthValue => "booleans are not numbers"
  | .tooManyDigits given =>
    let detail := match given with
      | none => ""
      | some count => ": value has " ++ toString count ++ " digits"
    "Exceeds the limit (4300 digits) for integer string conversion" ++ detail
      ++ "; use sys.set_int_max_str_digits() to increase the limit"

/-- The defect of data that hold a text or number without a value. -/
def Defect.ofNumeral : NumeralProblem → Defect
  | .malformed => .signal .conversionSyntax
  | .unrepresentable => .signal .invalidOperation
  | .notFinite shown => .notFinite shown
  | .truthValue => .truthValue

/-- Why a computation gives no value. -/
inductive Fault where
  | error (e : EvalError)
  | defect (d : Defect)
deriving Repr, Inhabited

/-- The result of a computation that may fail. -/
abbrev Outcome (α : Type) := Except Fault α

/-- Fail with a problem at a place. -/
def fail {α : Type} (p : Problem) (span : Option Span) : Outcome α :=
  .error (.error ⟨p, span, []⟩)

/-- A computation on numbers whose signals are defects. -/
def ofArithmetic {α : Type} (r : Except Decimal.Signal α) : Outcome α :=
  r.mapError fun s => .defect (.signal s)

/-- The most digits of an integer that may be written or read. -/
def digitLimit : Nat := 4300

/-- Text of an integer that may be too long to be written. -/
def writeInt (i : Int) : Outcome String :=
  if Nat.pow 10 digitLimit ≤ i.natAbs then .error (.defect (.tooManyDigits none))
  else .ok (showInt i)

end Groundplan
