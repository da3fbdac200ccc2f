import Groundplan.Decimal.Context

/-!
# Notations with a chosen number of digits

Text of a number with a given number of places or significant digits, rounded half to even.  No
context limits the digits.

## Main definitions

- `Decimal.toPlaces`: positional, with a number of places behind the point
- `Decimal.toExponential`: one digit in front of the point and a power of ten
- `Decimal.toGeneral`: at most a number of significant digits, trailing zeros kept
-/

namespace Groundplan

namespace Decimal

/-- Round a number other than zero to `count` significant digits; fewer digits are padded. -/
def toWidth (d : Decimal) (count : Nat) : Decimal :=
  let quantum := d.adjusted - count + 1
  let rounded := quantize d quantum
  if count < rounded.width then quantize rounded (quantum + 1) else rounded

/-- Positional text with `places` digits behind the point. -/
def toPlaces (d : Decimal) (places : Nat) : String :=
  let last : Int := -(places : Int)
  let digits :=
    if d.isZero then ['0']
    else if last ≤ d.exponent then
      digitsOf d.coefficient ++ List.replicate (d.exponent - last).toNat '0'
    else digitsOf (quantize d last).coefficient
  String.ofList (d.signed (placePoint digits (last + digits.length)))

/-- Text with one digit in front of the point, `places` digits behind it, and a power of ten. -/
def toExponential (d : Decimal) (places : Nat) : String :=
  let magnitude :=
    if d.isZero then exponentDigits 'e' (List.replicate (places + 1) '0') (d.exponent + places)
    else
      let rounded := d.toWidth (places + 1)
      exponentDigits 'e' (digitsOf rounded.coefficient) rounded.adjusted
  String.ofList (d.signed magnitude)

/-- Text with at most `count` significant digits, and at least one. -/
def toGeneral (d : Decimal) (count : Nat) : String :=
  let shown := max count 1
  let rounded := if shown < d.width then d.toWidth shown else d
  String.ofList (d.signed (rounded.scientificDigits 'e'))

end Decimal

end Groundplan
