/-!
# Operators

The operators of expressions.

## Main definitions

- `Operator`, `Operator.text`
- `Operator.ofText?`: the operator written by a text
-/

namespace Groundplan

/-- An operator of one or two operands. -/
inductive Operator where
  | add
  | sub
  | mul
  | div
  | mod
  | eq
  | ne
  | lt
  | le
  | gt
  | ge
  | and
  | or
  | neg
  | not
deriving DecidableEq, Repr, Inhabited

namespace Operator

/-- The operator as it is written. -/
def text : Operator → String
  | .add => "+"
  | .sub => "-"
  | .mul => "*"
  | .div => "/"
  | .mod => "%"
  | .eq => "=="
  | .ne => "!="
  | .lt => "<"
  | .le => "<="
  | .gt => ">"
  | .ge => ">="
  | .and => "&&"
  | .or => "||"
  | .neg => "neg"
  | .not => "!"

/-- Name of an operator. -/
def name : Operator → String
  | .add => "ADD"
  | .sub => "SUB"
  | .mul => "MUL"
  | .div => "DIV"
  | .mod => "MOD"
  | .eq => "EQ"
  | .ne => "NE"
  | .lt => "LT"
  | .le => "LE"
  | .gt => "GT"
  | .ge => "GE"
  | .and => "AND"
  | .or => "OR"
  | .neg => "NEG"
  | .not => "NOT"

/-- All operators. -/
def all : List Operator :=
  [.add, .sub, .mul, .div, .mod, .eq, .ne, .lt, .le, .gt, .ge, .and, .or, .neg, .not]

/-- The operator that a text writes. -/
def ofText? (s : String) : Option Operator :=
  all.find? (·.text == s)

end Operator

end Groundplan
