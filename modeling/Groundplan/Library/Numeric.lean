import Groundplan.Library.Collection

/-!
# Functions on numbers

## Main definitions

- `Library.least`, `Library.greatest`, `Library.total`, `Library.raise`
- `Library.powerFunction`: the function `pow`
- `Library.numericFunctions`: all functions on numbers with their signatures
-/

namespace Groundplan

namespace Library

/-- The smallest of some numbers, the first of equal ones. -/
def least (first : Decimal) (others : List Decimal) : Decimal :=
  others.foldl (fun found n => if n.less found then n else found) first

/-- The greatest of some numbers, the first of equal ones. -/
def greatest (first : Decimal) (others : List Decimal) : Decimal :=
  others.foldl (fun found n => if found.less n then n else found) first

/-- The sum of some numbers, rounded after every addition. -/
def total (items : List Value) : Outcome Decimal := do
  if items.isEmpty then fail (.functionCall "sum" "cannot sum an empty list") none
  let found ← numbers "sum" 1 items
  found.foldlM (fun sum n => ofArithmetic (Decimal.Context.standard.add sum n)) (Decimal.ofNat 0)

/-- A power, given the operation on numbers; an infinite one is a defect. -/
def raise (power : Decimal → Decimal → Except Decimal.Refusal Decimal) (base exponent : Decimal) :
    Outcome Decimal :=
  match power base exponent with
  | .ok n => .ok n
  | .error (.signal s) => .error (.defect (.signal s))
  | .error (.infinite negative) =>
    .error (.defect (.notFinite
      (if negative then "Decimal('-Infinity')" else "Decimal('Infinity')")))

/-- A function of one number. -/
def numberFunction (name : String) (run : Decimal → Outcome Decimal) : Function :=
  ⟨plainSignature name [.of "number" [.number]] .shallow,
    fun
    | [.number n] => (run n).map .number
    | _ => unsuited name⟩

/-- A function that picks one of its numbers. -/
def pickFunction (name : String) (pick : Decimal → List Decimal → Decimal) : Function :=
  ⟨⟨name, [], some (.of "numbers" [.number]), 1, .shallow⟩,
    fun args => do
      match ← numbers name 1 args with
      | first :: others => return .number (pick first others)
      | [] => unsuited name⟩

/-- The function that raises to powers, given the operation on numbers. -/
def powerFunction (power : Decimal → Decimal → Except Decimal.Refusal Decimal) : Function :=
  ⟨plainSignature "pow" [.of "base" [.number], .of "exponent" [.number]] .shallow,
    fun
    | [.number base, .number exponent] => (raise power base exponent).map .number
    | _ => unsuited "pow"⟩

/-- All functions on numbers. -/
def numericFunctions : List Function := [
  pickFunction "min" least,
  pickFunction "max" greatest,
  numberFunction "abs" fun n => ofArithmetic (Decimal.Context.standard.abs n),
  numberFunction "ceil" fun n => .ok n.ceil,
  numberFunction "floor" fun n => .ok n.floor,
  powerFunction Decimal.Context.standard.power,
  numberFunction "signum" fun n => .ok (Decimal.ofInt n.sign),
  ⟨plainSignature "sum" [.of "list" sequenceKinds] .deep,
    fun
    | [list] => (total (list.items?.getD [])).map .number
    | _ => unsuited "sum"⟩]

end Library

end Groundplan
