import Groundplan.Problem
import Groundplan.Value.Order

/-!
# Operators on values

Operators never change the kind of an operand.  An unknown operand makes the result unknown, but
the kind of the other operand is still checked.

## Main definitions

- `Operator.applyBinary`: the result of an operator between two values
- `Operator.applyUnary`: the result of an operator in front of a value
-/

namespace Groundplan

namespace Operator

/-- Require that an operand is unknown or has a kind. -/
def requireKind (v : Value) (kind : Kind) (text : String) (span : Option Span) : Outcome Unit :=
  if v.isUnknown || v.kind = kind then .ok ()
  else fail (.typeMismatch kind.label v.label (some ("operand of '" ++ text ++ "'"))) span

/-- A result that the arithmetic can hold, or the problem that it cannot. -/
def ofNumber (text : String) (span : Option Span) (r : Except Decimal.Signal Decimal) :
    Outcome Value :=
  match r with
  | .ok n => .ok (.number n)
  | .error s => fail (.arithmetic text s.name) span

/-- The result of an operator between two numbers. -/
def applyToNumbers (operator : Operator) (a b : Decimal) (span : Option Span) : Outcome Value :=
  let ofNumber := ofNumber operator.text span
  let context := Decimal.Context.standard
  match operator with
  | .lt => .ok (.bool (a.less b))
  | .le => .ok (.bool (a.compare b != .gt))
  | .gt => .ok (.bool (b.less a))
  | .ge => .ok (.bool (a.compare b != .lt))
  | .add => ofNumber (context.add a b)
  | .sub => ofNumber (context.subtract a b)
  | .mul => ofNumber (context.multiply a b)
  | .div => if b.sign = 0 then fail .divisionByZero span else ofNumber (context.divide a b)
  | .mod => if b.sign = 0 then fail .divisionByZero span else ofNumber (context.remainder a b)
  | operator => .error (.defect (.binaryOperator operator))

/-- The result of an operator between two values. -/
def applyBinary (operator : Operator) (left right : Value) (span : Option Span) :
    Outcome Value :=
  match operator with
  | .eq | .ne =>
    if left.containsUnknown || right.containsUnknown then .ok .unknown
    else .ok (.bool (left.equals right == (operator == .eq)))
  | .and | .or => do
    requireKind left .bool operator.text span
    requireKind right .bool operator.text span
    match left, right with
    | .bool a, .bool b => return .bool (if operator == .and then a && b else a || b)
    | _, _ => return .unknown
  | .neg | .not => .error (.defect (.binaryOperator operator))
  | .add | .sub | .mul | .div | .mod | .lt | .le | .gt | .ge => do
    requireKind left .number operator.text span
    requireKind right .number operator.text span
    match left, right with
    | .number a, .number b => applyToNumbers operator a b span
    | _, _ => return .unknown

/-- The result of an operator in front of a value. -/
def applyUnary (operator : Operator) (operand : Value) (span : Option Span) : Outcome Value :=
  match operator with
  | .neg => do
    requireKind operand .number "-" span
    match operand with
    | .number n => ofNumber "-" span (Decimal.Context.standard.minus n)
    | _ => return .unknown
  | .not => do
    requireKind operand .bool "!" span
    match operand with
    | .bool b => return .bool (!b)
    | _ => return .unknown
  | operator => .error (.defect (.unaryOperator operator))

end Operator

end Groundplan
