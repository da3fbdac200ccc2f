import Groundplan.Conversion
import Groundplan.Library.Signature
import Groundplan.Value.Text

/-!
# Arguments of functions

Readings of arguments that are more than a kind, and the ways in which signatures are written.

## Main definitions

- `Param.of`, `Param.any`: parameters of a kind and of any kind
- `Library.wholeNumber`, `Library.texts`, `Library.numbers`: arguments as integers, texts, numbers
-/

namespace Groundplan

namespace Param

/-- A required parameter of some kinds. -/
def of (name : String) (kinds : List Kind) : Param :=
  ⟨name, some kinds, false, false⟩

/-- A required parameter of any kind but null. -/
def any (name : String) : Param :=
  ⟨name, none, false, false⟩

/-- The parameter, which may be left out. -/
def orNothing (p : Param) : Param :=
  { p with optional := true }

/-- The parameter, which may be null. -/
def orNull (p : Param) : Param :=
  { p with nullable := true }

end Param

namespace Library

/-- Render a value for a message. -/
def shownValue (v : Value) : Outcome String :=
  ofArithmetic v.render

/-- A whole-number argument as an integer. -/
def wholeNumber (function : String) (position : Int) (v : Value) : Outcome Int :=
  match v with
  | .number n =>
    if n.isWhole then .ok n.toInt
    else do
      let shown ← shownValue v
      fail (.argumentType function position "whole number" shown) none
  | v => do
    let shown ← shownValue v
    fail (.argumentType function position "whole number" shown) none

/-- The texts of strings, numbers and bools. -/
def texts (function : String) (position : Int) : List Value → Outcome (List String)
  | [] => .ok []
  | item :: items => do
    if !item.kind.isPrimitive then
      fail (.argumentType function position "list of string" ("list containing " ++ item.label))
        none
    let text ← item.primitiveText
    return text :: (← texts function position items)

/-- The numbers among values that must all be numbers. -/
def numbers (function : String) (position : Int) : List Value → Outcome (List Decimal)
  | [] => .ok []
  | .number n :: items => do return n :: (← numbers function position items)
  | item :: _ => fail (.argumentType function position "number" item.label) none

/-- A call whose arguments do not have the kinds of the signature; checked calls have them. -/
def unsuited {α : Type} (function : String) : Outcome α :=
  fail (.functionCall function "unsuited arguments") none

end Library

end Groundplan
