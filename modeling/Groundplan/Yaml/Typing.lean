import Groundplan.Plain
import Groundplan.Text.Search

/-!
# Types of scalars

A scalar between quotes is a text.  What a scalar without quotes means is told by its form: a word
for null or a truth value, a whole number in one of several bases, a floating-point number, or else
a text.

## Main definitions

- `Typing.wholeNumber?`, `Typing.fractional?`: the two kinds of numbers
- `Typing.dataOf`: the data that a scalar without quotes stands for
-/

namespace Groundplan.Yaml.Typing

/-! ## Digits -/

/-- Whether a character is a digit below `base`, which is at most sixteen, or an underscore, which
may stand between digits. -/
def isDigitOf (base : Nat) (c : Char) : Bool :=
  c == '_' || (c.isDigit && c.toNat - '0'.toNat < base)
    || (base == 16 && (('a' ≤ c && c ≤ 'f') || ('A' ≤ c && c ≤ 'F')))

/-- The value of a digit. -/
private def valueOfDigit (c : Char) : Nat :=
  if c.isDigit then c.toNat - '0'.toNat else c.toLower.toNat - 'a'.toNat + 10

/-- The number that digits write; underscores do not count. -/
def numberOf (base : Nat) (cs : List Char) : Nat :=
  (cs.filter (· != '_')).foldl (fun n c => n * base + valueOfDigit c) 0

/-- The number that digits write, if there are any and nothing else. -/
def numberIn? (base : Nat) (cs : List Char) : Option Nat :=
  if !cs.isEmpty && cs.all (isDigitOf base) then some (numberOf base cs) else none

/-- Whether characters are digits, of which the first is no underscore. -/
def isWritten (cs : List Char) : Bool :=
  (cs.head?.map Char.isDigit).getD false && cs.all (isDigitOf 10)

/-- Whether characters are a number below sixty in one or two digits. -/
def isSixtieth : List Char → Bool
  | [c] => c.isDigit
  | [c, d] => '0' ≤ c && c ≤ '5' && d.isDigit
  | _ => false

/-- The characters between colons. -/
def betweenColons (cs : List Char) : List (List Char) :=
  Text.pieces [':'] (by decide) cs

/-! ## Whole numbers -/

/-- The whole number without a sign that characters write: binary behind `0b`, of base sixteen
behind `0x`, of base eight behind `0`, and else decimal, perhaps in groups of base sixty. -/
def magnitude? (cs : List Char) : Option Nat :=
  match cs with
  | ['0'] => some 0
  | '0' :: 'b' :: digits => numberIn? 2 digits
  | '0' :: 'x' :: digits => numberIn? 16 digits
  | '0' :: digits => numberIn? 8 digits
  | cs =>
    match betweenColons cs with
    | [] => none
    | whole :: sixtieths =>
      if isWritten whole && sixtieths.all isSixtieth then
        some ((whole :: sixtieths).foldl (fun n part => n * 60 + numberOf 10 part) 0)
      else none

/-- The whole number that characters write. -/
def wholeNumber? (cs : List Char) : Option Int :=
  let (negative, magnitude) := Numeral.takeSign cs
  (magnitude? magnitude).map fun n => if negative then -(n : Int) else n

/-! ## Floating-point numbers -/

/-- Whether characters are a power of ten with a sign, or nothing. -/
def isPower : List Char → Bool
  | [] => true
  | mark :: sign :: digits =>
    (mark == 'e' || mark == 'E') && (sign == '+' || sign == '-') && !digits.isEmpty
      && digits.all Char.isDigit
  | _ => false

/-- Whether characters are digits with a point behind them, further digits and a power. -/
def isPointed (cs : List Char) : Bool :=
  let (whole, rest) := cs.span (isDigitOf 10)
  match rest with
  | '.' :: more => isWritten whole && isPower (more.dropWhile (isDigitOf 10))
  | _ => false

/-- Whether characters are a point with digits behind it and a power. -/
def isFraction : List Char → Bool
  | '.' :: cs => isWritten (cs.takeWhile (isDigitOf 10)) && isPower (cs.dropWhile (isDigitOf 10))
  | _ => false

/-- The number nearest to what characters write. -/
def nearestTo (cs : List Char) : Double :=
  match Numeral.read? (String.ofList (cs.filter (· != '_'))) with
  | some n => .ofNumeral n
  | none => .undefined

/-- `x · 60ⁿ + y`, rounded after each operation. -/
private def addSixtieths (y : Double) (n : Nat) (x : Double) : Double :=
  match x.asDecimal?, (Double.ofDecimal (Decimal.ofNat (Nat.pow 60 n))).asDecimal? with
  | some d, some unit =>
    let product := Double.ofDecimal
      ⟨d.negative, d.coefficient * unit.coefficient, d.exponent + unit.exponent⟩
    match y.asDecimal?, product.asDecimal? with
    | some a, some b => Double.ofDecimal (Decimal.sum a b)
    | _, _ => product
  | _, _ => x

/-- The number with groups of base sixty that characters write; the last group has a point. -/
def sixtieths? (cs : List Char) : Option Double :=
  match (betweenColons cs).reverse with
  | last :: middle =>
    let (whole, rest) := last.span (· != '.')
    let wellFormed := match middle.reverse, rest with
      | first :: between, '.' :: more =>
        isWritten first && between.all isSixtieth && isSixtieth whole && more.all (isDigitOf 10)
      | _, _ => false
    if wellFormed then
      let groups := (last :: middle).map nearestTo
      some ((groups.zipIdx.foldl fun sum group => addSixtieths sum group.2 group.1)
        (.finite false 0 0))
    else none
  | [] => none

/-- A number with its sign turned around. -/
private def opposite : Double → Double
  | .finite negative mantissa power => .finite (!negative) mantissa power
  | .infinite negative => .infinite (!negative)
  | .undefined => .undefined

/-- The floating-point number that characters write.  It has a point. -/
def fractional? (cs : List Char) : Option Double :=
  let (negative, magnitude) := Numeral.takeSign cs
  let signed (x : Double) : Double := if negative then opposite x else x
  let word := String.ofList magnitude
  if word == ".inf" || word == ".Inf" || word == ".INF" then some (signed (.infinite false))
  else if isPointed magnitude then some (signed (nearestTo magnitude))
  else if isFraction cs then some (nearestTo cs)
  else if [".nan", ".NaN", ".NAN"].contains (String.ofList cs) then some .undefined
  else (sixtieths? magnitude).map signed

/-! ## Scalars -/

/-- The words for null. -/
def nullWords : List String := ["", "~", "null", "Null", "NULL"]

/-- The words for true. -/
def trueWords : List String :=
  ["yes", "Yes", "YES", "true", "True", "TRUE", "on", "On", "ON"]

/-- The words for false. -/
def falseWords : List String :=
  ["no", "No", "NO", "false", "False", "FALSE", "off", "Off", "OFF"]

/-- The data that a scalar without quotes stands for. -/
def dataOf (text : String) : Plain :=
  if nullWords.contains text then .null
  else if trueWords.contains text then .bool true
  else if falseWords.contains text then .bool false
  else
    match wholeNumber? text.toList with
    | some i => .integer i
    | none =>
      match fractional? text.toList with
      | some x => .double x
      | none => .text text

end Groundplan.Yaml.Typing
