/-!
# Decimal numbers

A number of the configuration language is a finite decimal: a sign, a whole coefficient and a
power of ten.  Two decimals may be equal as numbers and still differ in the digits they carry
(`1.5` and `1.50`), so numerical comparison is separate from equality of representations.

## Main definitions

- `Decimal`: sign, coefficient, exponent
- `Decimal.compare`: exact numerical order
- `Decimal.toScientific`: the text that shows every digit the number carries
- `Decimal.toFixed`: positional text without an exponent
- `Decimal.trimFraction`: a text without zeros at the end of its fractional part
- `Decimal.toInt`: the integer part of the number
-/

namespace Groundplan

/-- A finite decimal number `± coefficient · 10 ^ exponent`. -/
structure Decimal where
  /-- The sign, which zero has too. -/
  negative : Bool
  /-- The digits, read as one whole number. -/
  coefficient : Nat
  /-- The power of ten that the last digit counts. -/
  exponent : Int
deriving DecidableEq, Repr, Inhabited

namespace Decimal

/-! ## Construction and size -/

/-- The whole number `i`, with exponent zero. -/
def ofInt (i : Int) : Decimal :=
  ⟨decide (i < 0), i.natAbs, 0⟩

/-- The natural number `n`, with exponent zero. -/
def ofNat (n : Nat) : Decimal :=
  ⟨false, n, 0⟩

/-- The decimal digits of a natural number, most significant first; `0` has one digit. -/
def digitsOf (n : Nat) : List Char :=
  Nat.toDigits 10 n

/-- How many digits the coefficient has. -/
def width (d : Decimal) : Nat :=
  (digitsOf d.coefficient).length

/-- The power of ten that the first digit counts. -/
def adjusted (d : Decimal) : Int :=
  d.exponent + d.width - 1

/-- Whether the number is zero, of either sign. -/
def isZero (d : Decimal) : Bool :=
  d.coefficient == 0

/-- The number with the opposite sign. -/
def negate (d : Decimal) : Decimal :=
  { d with negative := !d.negative }

/-- `n · 10 ^ k`, where zero needs no power. -/
def scaleUp (n k : Nat) : Nat :=
  if n = 0 then 0 else n * Nat.pow 10 k

/-! ## Order -/

/-- Compare the magnitudes of two non-zero numbers.  The leading digits decide unless they count
the same power of ten; then both coefficients are brought to the smaller exponent. -/
def compareMagnitude (a b : Decimal) : Ordering :=
  match Ord.compare a.adjusted b.adjusted with
  | .eq =>
    let low := min a.exponent b.exponent
    Ord.compare (scaleUp a.coefficient (a.exponent - low).toNat)
      (scaleUp b.coefficient (b.exponent - low).toNat)
  | unequal => unequal

/-- Exact numerical comparison; both zeros are equal. -/
def compare (a b : Decimal) : Ordering :=
  if a.isZero && b.isZero then .eq
  else if a.isZero then if b.negative then .gt else .lt
  else if b.isZero then if a.negative then .lt else .gt
  else match a.negative, b.negative with
    | false, true => .gt
    | true, false => .lt
    | false, false => compareMagnitude a b
    | true, true => compareMagnitude b a

/-- Numerical equality. -/
def equals (a b : Decimal) : Bool :=
  compare a b == .eq

/-- Numerical "less than". -/
def less (a b : Decimal) : Bool :=
  compare a b == .lt

/-- `-1`, `0` or `1` as the number lies below, at or above zero. -/
def sign (d : Decimal) : Int :=
  if d.isZero then 0 else if d.negative then -1 else 1

/-! ## Whole numbers -/

/-- Whether the number has no fractional part. -/
def isWhole (d : Decimal) : Bool :=
  if 0 ≤ d.exponent || d.isZero then true
  else if d.width < d.exponent.natAbs then false
  else d.coefficient % Nat.pow 10 d.exponent.natAbs == 0

/-- The magnitude with its fractional part cut off. -/
def truncated (d : Decimal) : Nat :=
  if 0 ≤ d.exponent then scaleUp d.coefficient d.exponent.toNat
  else if d.width < d.exponent.natAbs then 0
  else d.coefficient / Nat.pow 10 d.exponent.natAbs

/-- The number with its fractional part cut off, as an integer. -/
def toInt (d : Decimal) : Int :=
  if d.negative then -(d.truncated : Int) else d.truncated

/-- The nearest whole number in one direction: away from zero exactly when `outward` holds.
A number without fractional digits is kept as it is. -/
def toWhole (outward : Bool) (d : Decimal) : Decimal :=
  if 0 ≤ d.exponent then d
  else ⟨d.negative, if outward && !d.isWhole then d.truncated + 1 else d.truncated, 0⟩

/-- The least whole number that is not below `d`. -/
def ceil (d : Decimal) : Decimal :=
  toWhole (!d.negative) d

/-- The greatest whole number that is not above `d`. -/
def floor (d : Decimal) : Decimal :=
  toWhole d.negative d

/-! ## Text -/

/-- Put the sign in front of a magnitude's text. -/
def signed (d : Decimal) (magnitude : List Char) : List Char :=
  if d.negative then '-' :: magnitude else magnitude

/-- Digits with a decimal point after the first `place` of them; zeros fill the gap when the
point lies outside the digits. -/
def placePoint (digits : List Char) (place : Int) : List Char :=
  if place ≤ 0 then '0' :: '.' :: (List.replicate place.natAbs '0' ++ digits)
  else if digits.length ≤ place.toNat then
    digits ++ List.replicate (place.toNat - digits.length) '0'
  else digits.take place.toNat ++ '.' :: digits.drop place.toNat

/-- Positional text of the magnitude, without an exponent. -/
def fixedDigits (d : Decimal) : List Char :=
  if d.isZero && 0 < d.exponent then ['0']
  else placePoint (digitsOf d.coefficient) (d.exponent + d.width)

/-- Positional text, without an exponent. -/
def toFixed (d : Decimal) : String :=
  String.ofList (d.signed d.fixedDigits)

/-- The text without the zeros at the end of a fractional part, nor a point with nothing behind. -/
def trimFraction (text : String) : String :=
  let cs := text.toList
  if cs.contains '.' then
    String.ofList ((cs.reverse.dropWhile (· == '0')).dropWhile (· == '.')).reverse
  else text

/-- Text of an integer, with its sign. -/
def integerDigits (i : Int) : List Char :=
  if i < 0 then '-' :: digitsOf i.natAbs else digitsOf i.natAbs

/-- One digit, a point and the other digits, then `mark` and the signed power of ten. -/
def exponentDigits (mark : Char) (digits : List Char) (power : Int) : List Char :=
  let mantissa := match digits with
    | [] => []
    | [c] => [c]
    | c :: rest => c :: '.' :: rest
  mantissa ++ mark :: (if power < 0 then '-' else '+') :: digitsOf power.natAbs

/-- Text that shows every digit the number carries: positional if the exponent is not positive
and at most six places follow the point before the first digit, and otherwise one digit, a point,
the other digits and the power of ten behind `mark`. -/
def scientificDigits (mark : Char) (d : Decimal) : List Char :=
  if d.exponent ≤ 0 && -6 ≤ d.adjusted then
    placePoint (digitsOf d.coefficient) (d.exponent + d.width)
  else exponentDigits mark (digitsOf d.coefficient) d.adjusted

/-- Text that determines sign, coefficient and exponent. -/
def toScientific (d : Decimal) : String :=
  String.ofList (d.signed (d.scientificDigits 'E'))

end Decimal

end Groundplan
