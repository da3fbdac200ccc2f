import Groundplan.Problem
import Groundplan.Sorting
import Groundplan.Value.Basic

/-!
# Signatures of functions

A function has a fixed signature.  A call is checked against it before the function runs: first the
number of arguments, then the kind of each.  The signature also tells how the function treats
unknown arguments.

## Main definitions

- `Param`, `Signature`, `UnknownPolicy`
- `Signature.check`: what is wrong with a call, if anything
- `Function.invoke`: a checked call
- `Library`: functions by name
-/

namespace Groundplan

/-! ## Signatures -/

/-- How a function treats unknown arguments. -/
inductive UnknownPolicy where
  /-- An unknown argument makes the result unknown. -/
  | shallow
  /-- Unknown at any depth of an argument makes the result unknown. -/
  | deep
  /-- The function handles unknown itself. -/
  | accept
deriving DecidableEq, Repr, Inhabited

/-- Name of a policy. -/
def UnknownPolicy.label : UnknownPolicy → String
  | .shallow => "shallow"
  | .deep => "deep"
  | .accept => "accept"

/-- One parameter of a function. -/
structure Param where
  name : String
  /-- The kinds that an argument may have; any kind if there are none. -/
  kinds : Option (List Kind)
  optional : Bool
  nullable : Bool
deriving DecidableEq, Repr, Inhabited

namespace Param

/-- What the parameter expects, for messages. -/
def expected (p : Param) : String :=
  match p.kinds with
  | none => "any value"
  | some kinds => " or ".intercalate (Sorting.sortTexts (kinds.eraseDups.map Kind.label))

/-- Whether an argument may have a kind. -/
def accepts (p : Param) (kind : Kind) : Bool :=
  match p.kinds with
  | none => true
  | some kinds => kinds.contains kind

end Param

/-- The parameters of a function. -/
structure Signature where
  name : String
  params : List Param
  /-- The parameter of all arguments behind those of `params`. -/
  variadic : Option Param
  /-- How many arguments the variadic parameter needs. -/
  minVariadic : Nat
  policy : UnknownPolicy
deriving DecidableEq, Repr, Inhabited

namespace Signature

/-- The least number of arguments. -/
def requiredCount (s : Signature) : Nat :=
  s.params.countP (!·.optional) + s.minVariadic

/-- The number of arguments, for messages. -/
def arityText (s : Signature) : String :=
  let required := s.requiredCount
  if s.variadic.isSome then "at least " ++ toString required
  else if required ≠ s.params.length then
    toString required ++ " to " ++ toString s.params.length
  else toString required

/-- Whether a number of arguments fits. -/
def acceptsCount (s : Signature) (count : Nat) : Bool :=
  s.requiredCount ≤ count && (s.variadic.isSome || count ≤ s.params.length)

/-- The parameter of the argument at a place. -/
def paramAt (s : Signature) (place : Nat) : Option Param :=
  (s.params[place]?).or s.variadic

/-- What is wrong with an argument for a parameter. -/
def argumentProblem? (s : Signature) (place : Nat) (p : Param) (arg : Value) : Option Problem :=
  let wrong (found : String) : Option Problem :=
    some (.argumentType s.name (place + 1) p.expected found)
  match arg with
  | .unknown => none
  | .null => if p.nullable then none else wrong "null"
  | arg => if p.accepts arg.kind then none else wrong arg.label

/-- What is wrong with the first argument that does not fit, counting places from `place`. -/
def argumentsProblem? (s : Signature) (place : Nat) : List Value → Option Problem
  | [] => none
  | arg :: args =>
    match (s.paramAt place).bind fun p => s.argumentProblem? place p arg with
    | some problem => some problem
    | none => argumentsProblem? s (place + 1) args

/-- What is wrong with a call. -/
def problem? (s : Signature) (args : List Value) : Option Problem :=
  if s.acceptsCount args.length then s.argumentsProblem? 0 args
  else some (.arity s.name s.arityText args.length)

/-- Whether the result of a call is unknown without running the function. -/
def isUnknownCall (s : Signature) (args : List Value) : Bool :=
  match s.policy with
  | .shallow => args.any Value.isUnknown
  | .deep => Value.anyContainsUnknown args
  | .accept => false

end Signature

/-! ## Functions -/

/-- A function of the library. -/
structure Function where
  signature : Signature
  run : List Value → Outcome Value

namespace Function

/-- Check a call, apply the policy on unknown arguments, then run the function.  Its problems get
the place of the call, and a signal of the arithmetic becomes a problem of the function. -/
def invoke (f : Function) (args : List Value) (span : Option Span) : Outcome Value :=
  match f.signature.problem? args with
  | some problem => fail problem span
  | none =>
    if f.signature.isUnknownCall args then .ok .unknown
    else
      match f.run args with
      | .error (.error e) => .error (.error (e.placedAt span))
      | .error (.defect (.signal s)) =>
        fail (.functionCall f.signature.name ("arithmetic error: " ++ s.report)) span
      | outcome => outcome

end Function

/-! ## Libraries -/

/-- Functions by name. -/
abbrev Library := List Function

namespace Library

/-- The function with a name; of two the later one. -/
def find? (library : Library) (name : String) : Option Function :=
  library.reverse.find? (·.signature.name == name)

/-- The names of all functions in ascending order. -/
def names (library : Library) : List String :=
  Sorting.sortTexts (library.map (·.signature.name)).eraseDups

/-- Call a function by name. -/
def call (library : Library) (name : String) (args : List Value) (span : Option Span) :
    Outcome Value :=
  match library.find? name with
  | none => fail (.unknownFunction name) span
  | some f => f.invoke args span

end Library

end Groundplan
