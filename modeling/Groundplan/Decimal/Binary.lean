import Groundplan.Decimal.Context
import Groundplan.Decimal.Literal

/-!
# Binary floating-point numbers

Double-precision numbers reach the program from data formats that have them.  They are kept as
exact fractions and enter the language through the shortest decimal text that reads back as the
same number.

## Main definitions

- `Double`: the double-precision numbers
- `Double.ofDecimal`: the nearest double-precision number
- `Double.asDecimal?`: the decimal with exactly the same value
- `Double.shortest`: the decimal with the fewest digits that reads back
- `Double.toText`: its text
-/

namespace Groundplan

/-- A double-precision number: a whole mantissa times a power of two, an infinity, or undefined. -/
inductive Double where
  | finite (negative : Bool) (mantissa : Nat) (power : Int)
  | infinite (negative : Bool)
  | undefined
deriving DecidableEq, Repr, Inhabited

namespace Double

/-! ## From decimals -/

/-- `p / q` rounded to a whole number, a tie going to the even neighbour. -/
private def nearest (p q : Nat) : Nat :=
  let quotient := p / q
  let twice := 2 * (p % q)
  if q < twice || (twice == q && quotient % 2 == 1) then quotient + 1 else quotient

/-- `p / q` scaled by a power of two, as a fraction. -/
private def scaled (p q : Nat) (power : Int) : Nat × Nat :=
  if 0 ≤ power then (p * Nat.pow 2 power.toNat, q) else (p, q * Nat.pow 2 power.natAbs)

/-- The power of two of the leading binary digit of `p / q`. -/
private def leading (p q : Nat) : Int :=
  let guess : Int := (p.log2 : Int) - q.log2
  let (p', q') := scaled p q (-guess)
  if p' < q' then guess - 1 else guess

/-- The nearest double-precision number, a tie going to the even mantissa. -/
def ofDecimal (d : Decimal) : Double :=
  if d.isZero || d.adjusted < -400 then .finite d.negative 0 0
  else if 400 < d.adjusted then .infinite d.negative
  else
    let unit := Nat.pow 10 d.exponent.natAbs
    let p := if 0 ≤ d.exponent then d.coefficient * unit else d.coefficient
    let q := if 0 ≤ d.exponent then 1 else unit
    let power := max (-1074) (leading p q - 52)
    let (p', q') := scaled p q (-power)
    let mantissa := nearest p' q'
    let (mantissa, power) :=
      if mantissa = Nat.pow 2 53 then (Nat.pow 2 52, power + 1) else (mantissa, power)
    if 971 < power then .infinite d.negative else .finite d.negative mantissa power

/-- The double-precision number that a numeral writes. -/
def ofNumeral : Numeral → Double
  | .finite d => ofDecimal d
  | .infinite negative => .infinite negative
  | .undefined => .undefined

/-! ## Exact decimals -/

/-- The decimal with exactly the value of a number, unless it is an infinity or undefined. -/
def asDecimal? : Double → Option Decimal
  | .finite negative mantissa power =>
    some (if 0 ≤ power then ⟨negative, mantissa * Nat.pow 2 power.toNat, 0⟩
      else ⟨negative, mantissa * Nat.pow 5 power.natAbs, power⟩)
  | _ => none

/-! ## Shortest decimals -/

/-- Whether two numbers have the same value and sign. -/
private def same : Double → Double → Bool
  | .finite n m p, .finite n' m' p' =>
    n == n' && (if p ≤ p' then m == m' * Nat.pow 2 (p' - p).toNat
      else m * Nat.pow 2 (p - p').toNat == m')
  | .infinite n, .infinite n' => n == n'
  | .undefined, .undefined => true
  | _, _ => false

/-- Of the two neighbours of `p / q` on the grid `10 ^ place`, the nearer one that reads back as
`target`, if there is one. -/
private def neighbour? (target : Double) (negative : Bool) (p q : Nat) (place : Int) :
    Option Decimal :=
  let unit := Nat.pow 10 place.natAbs
  let (p', q') := if 0 ≤ place then (p, q * unit) else (p * unit, q)
  let below := p' / q'
  let readsBack (c : Nat) : Bool := same (ofDecimal ⟨negative, c, place⟩) target
  let nearer := nearest p' q'
  let farther := if nearer = below then below + 1 else below
  if readsBack nearer then some ⟨negative, nearer, place⟩
  else if readsBack farther then some ⟨negative, farther, place⟩
  else none

/-- The first grid on which a neighbour reads back, going from coarse to fine; `fuel` bounds the
number of grids. -/
private def firstGrid (target : Double) (negative : Bool) (p q : Nat) (fuel : Nat) (place : Int) :
    Decimal :=
  match fuel with
  | 0 => ⟨negative, p / q, 0⟩
  | fuel + 1 =>
    match neighbour? target negative p q place with
    | some d => d
    | none => firstGrid target negative p q fuel (place - 1)

/-- The decimal with the fewest digits that reads back as a finite number. -/
def shortest (negative : Bool) (mantissa : Nat) (power : Int) : Decimal :=
  if mantissa = 0 then ⟨negative, 0, 0⟩
  else
    let (p, q) := scaled mantissa 1 power
    let start : Int := (Decimal.digitsOf p).length - (Decimal.digitsOf q).length + 1
    firstGrid (.finite negative mantissa power) negative p q 40 start

/-! ## Text -/

/-- The shortest decimal between `10⁻⁴` and `10¹⁶` is written positionally, with at least one
digit behind the point; any other with a power of ten of at least two digits. -/
def toText : Double → String
  | .infinite negative => if negative then "-inf" else "inf"
  | .undefined => "nan"
  | .finite negative mantissa power =>
    let d := shortest negative mantissa power
    let plain := Decimal.stripZeros d.width 400 d
    let digits := Decimal.digitsOf plain.coefficient
    let magnitude :=
      if d.isZero then "0.0".toList
      else if -4 ≤ plain.adjusted && plain.adjusted < 16 then
        if plain.exponent < 0 then Decimal.placePoint digits (plain.exponent + plain.width)
        else Decimal.placePoint digits (plain.exponent + plain.width) ++ ['.', '0']
      else
        let exponent := Decimal.digitsOf plain.adjusted.natAbs
        let mantissa := match digits with
          | c :: e :: rest => c :: '.' :: e :: rest
          | cs => cs
        mantissa ++ 'e' :: (if plain.adjusted < 0 then '-' else '+')
          :: (if exponent.length < 2 then '0' :: exponent else exponent)
    String.ofList (if negative then '-' :: magnitude else magnitude)

/-- The decimal that the text of a number writes. -/
def toDecimal (x : Double) : Except NumeralProblem Decimal :=
  Decimal.ofText x.toText

end Double

end Groundplan
