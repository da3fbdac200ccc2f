import Groundplan.Decimal.Basic

/-!
# Decimal arithmetic in a context

A context bounds the digits and the exponents of results.  Every operation computes the exact
result and then finishes it: the digits that do not fit are rounded half to even, a result that
is too small becomes subnormal or zero, and one that is too large is refused with a signal.

## Main definitions

- `Context`, `Context.standard`, `Context.coarse`: precision and exponent range
- `Signal`: the conditions that stop an operation
- `Context.finish`: rounding of an exact result
- `Context.add`, `subtract`, `multiply`, `divide`, `remainder`, `minus`, `abs`, `reduce`
-/

namespace Groundplan

namespace Decimal

/-! ## Contexts and signals -/

/-- Precision and exponent range of arithmetic. -/
structure Context where
  /-- The most digits a result keeps. -/
  precision : Nat
  /-- The greatest adjusted exponent of a result. -/
  maxExponent : Int
  /-- The least adjusted exponent of a normal result. -/
  minExponent : Int
deriving DecidableEq, Repr

/-- The context of all arithmetic of the language. -/
def Context.standard : Context := ⟨128, 999999, -999999⟩

/-- The narrower context in which the direction of a numeric range is judged. -/
def Context.coarse : Context := ⟨28, 999999, -999999⟩

/-- The least exponent that a subnormal result may have. -/
def Context.tiniest (ctx : Context) : Int :=
  ctx.minExponent - ctx.precision + 1

/-- Conditions that stop an operation. -/
inductive Signal where
  | conversionSyntax
  | divisionByZero
  | divisionImpossible
  | invalidOperation
  | overflow
deriving DecidableEq, Repr

/-- The name of a condition. -/
def Signal.name : Signal → String
  | .conversionSyntax => "ConversionSyntax"
  | .divisionByZero => "DivisionByZero"
  | .divisionImpossible => "DivisionImpossible"
  | .invalidOperation => "InvalidOperation"
  | .overflow => "Overflow"

/-- The report of a single raised condition. -/
def Signal.report (s : Signal) : String :=
  "[<class 'decimal." ++ s.name ++ "'>]"

/-! ## Rounding -/

/-- `n / 10 ^ k` rounded to the nearest whole number, a tie going to the even neighbour. -/
def roundQuotient (n k : Nat) : Nat :=
  let unit := Nat.pow 10 k
  let quotient := n / unit
  let twice := 2 * (n % unit)
  if unit < twice || (twice == unit && quotient % 2 == 1) then quotient + 1 else quotient

/-- `d` with its last digit counting `10 ^ quantum`, rounded half to even if digits are lost. -/
def quantize (d : Decimal) (quantum : Int) : Decimal :=
  if quantum ≤ d.exponent then
    ⟨d.negative, scaleUp d.coefficient (d.exponent - quantum).toNat, quantum⟩
  else
    let lost := (quantum - d.exponent).toNat
    ⟨d.negative, if d.width < lost then 0 else roundQuotient d.coefficient lost, quantum⟩

/-- Round an exact result into the context.  A zero keeps its sign and has its exponent moved
into range; any other number is rounded once, to the precision or to the least exponent,
whichever is coarser. -/
def Context.finish (ctx : Context) (d : Decimal) : Except Signal Decimal :=
  if d.isZero then
    .ok { d with exponent := max ctx.tiniest (min ctx.maxExponent d.exponent) }
  else if ctx.maxExponent < d.adjusted then .error .overflow
  else
    let quantum := max ctx.tiniest (d.adjusted - ctx.precision + 1)
    if quantum ≤ d.exponent then .ok d
    else
      let rounded := quantize d quantum
      -- Nines that are rounded up carry into one more digit, and the last one is a zero.
      let carried : Decimal :=
        if rounded.coefficient = Nat.pow 10 ctx.precision then
          ⟨rounded.negative, Nat.pow 10 (ctx.precision - 1), quantum + 1⟩
        else rounded
      if ctx.maxExponent < carried.adjusted then .error .overflow else .ok carried

/-! ## Sums -/

/-- The exact sum.  A sum that is exactly zero is positive unless both operands are negative. -/
def sum (a b : Decimal) : Decimal :=
  let low := min a.exponent b.exponent
  let x := scaleUp a.coefficient (a.exponent - low).toNat
  let y := scaleUp b.coefficient (b.exponent - low).toNat
  if a.negative = b.negative then ⟨a.negative, x + y, low⟩
  else if x = y then ⟨false, 0, low⟩
  else if x < y then ⟨b.negative, y - x, low⟩
  else ⟨a.negative, x - y, low⟩

/-- Bring `small` up to where it still influences the rounding of a sum with `big`, whose
exponent is greater.  Below that place only its sign and whether it is zero matter. -/
def Context.raise (ctx : Context) (big small : Decimal) : Decimal :=
  let spare : Int := if ctx.precision < big.width then 0 else big.width - ctx.precision - 1
  let place := big.exponent - 1 + spare
  if !big.isZero && small.adjusted < place then
    ⟨small.negative, if small.isZero then 0 else 1, place⟩
  else small

/-- Sum rounded to the context. -/
def Context.add (ctx : Context) (a b : Decimal) : Except Signal Decimal :=
  if b.exponent < a.exponent then ctx.finish (sum a (ctx.raise a b))
  else if a.exponent < b.exponent then ctx.finish (sum (ctx.raise b a) b)
  else ctx.finish (sum a b)

/-- Difference rounded to the context. -/
def Context.subtract (ctx : Context) (a b : Decimal) : Except Signal Decimal :=
  ctx.add a b.negate

/-- The number itself rounded to the context; a zero comes out positive. -/
def Context.plus (ctx : Context) (d : Decimal) : Except Signal Decimal :=
  ctx.finish { d with negative := d.negative && !d.isZero }

/-- The opposite number rounded to the context; a zero comes out positive. -/
def Context.minus (ctx : Context) (d : Decimal) : Except Signal Decimal :=
  ctx.plus d.negate

/-- Magnitude rounded to the context. -/
def Context.abs (ctx : Context) (d : Decimal) : Except Signal Decimal :=
  ctx.finish { d with negative := false }

/-! ## Products and quotients -/

/-- Product rounded to the context. -/
def Context.multiply (ctx : Context) (a b : Decimal) : Except Signal Decimal :=
  ctx.finish ⟨a.negative != b.negative, a.coefficient * b.coefficient, a.exponent + b.exponent⟩

/-- Drop trailing zeros of a coefficient while the exponent stays below `limit`; `fuel` bounds
how many can be dropped. -/
def stripZeros (fuel : Nat) (limit : Int) (d : Decimal) : Decimal :=
  match fuel with
  | 0 => d
  | fuel + 1 =>
    if d.exponent < limit && d.coefficient % 10 == 0 then
      stripZeros fuel limit ⟨d.negative, d.coefficient / 10, d.exponent + 1⟩
    else d

/-- Quotient of two numbers rounded to the context.  An exact quotient is given with the exponent
nearest to the difference of the operands' exponents; an inexact one has a last digit that tells
the rounding that more digits follow. -/
def Context.divide (ctx : Context) (a b : Decimal) : Except Signal Decimal :=
  if b.isZero then .error .divisionByZero
  else
    let negative := a.negative != b.negative
    let ideal := a.exponent - b.exponent
    if a.isZero then ctx.finish ⟨negative, 0, ideal⟩
    else
      -- With this shift the quotient has more digits than the precision.
      let shift : Int := (b.width : Int) - a.width + ctx.precision + 1
      let unit := Nat.pow 10 shift.natAbs
      let dividend := if 0 ≤ shift then a.coefficient * unit else a.coefficient
      let divisor := if 0 ≤ shift then b.coefficient else b.coefficient * unit
      let quotient := dividend / divisor
      if dividend % divisor = 0 then
        let exact : Decimal := ⟨negative, quotient, ideal - shift⟩
        ctx.finish (stripZeros exact.width ideal exact)
      else
        ctx.finish
          -- A last digit other than zero and five is never taken for an exact tie.
          ⟨negative, if quotient % 5 = 0 then quotient + 1 else quotient, ideal - shift⟩

/-- Remainder of the division that truncates toward zero, so that it has the dividend's sign.
It is refused when the whole quotient has more digits than the precision. -/
def Context.remainder (ctx : Context) (a b : Decimal) : Except Signal Decimal :=
  if b.isZero then .error .invalidOperation
  else
    let low := min a.exponent b.exponent
    if a.isZero then ctx.finish ⟨a.negative, 0, low⟩
    else if a.adjusted < b.adjusted then
      ctx.finish ⟨a.negative, scaleUp a.coefficient (a.exponent - low).toNat, low⟩
    else if (ctx.precision : Int) < a.adjusted - b.adjusted then .error .divisionImpossible
    else
      let x := scaleUp a.coefficient (a.exponent - low).toNat
      let y := scaleUp b.coefficient (b.exponent - low).toNat
      if Nat.pow 10 ctx.precision ≤ x / y then .error .divisionImpossible
      else ctx.finish ⟨a.negative, x % y, low⟩

/-! ## Canonical digits -/

/-- The number rounded to the context, without trailing zeros; a zero has exponent zero. -/
def Context.reduce (ctx : Context) (d : Decimal) : Except Signal Decimal :=
  match ctx.finish d with
  | .error s => .error s
  | .ok rounded =>
    if rounded.isZero then .ok ⟨rounded.negative, 0, 0⟩
    else .ok (stripZeros rounded.width ctx.maxExponent rounded)

/-- The text of a number in configuration: positional, without trailing zeros, after rounding to
the language's context. -/
def toText (d : Decimal) : Except Signal String :=
  if d.isZero then .ok "0"
  else (Context.standard.reduce d).map fun canonical => trimFraction canonical.toFixed

end Decimal

end Groundplan
