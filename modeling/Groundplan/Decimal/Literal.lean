import Groundplan.Decimal.Basic
import Groundplan.Text.Blank
import Groundplan.Text.Numeral
import Groundplan.Text.Quoted

/-!
# Reading decimal numbers

Texts that write a number.  Blanks around the text and underscores inside it do not count, and the
digits of every script may be used.  Infinities and not-a-number can be written but are no numbers
of the language.

## Main definitions

- `Numeral`: what a text writes
- `Numeral.read?`: the generous reading
- `isLiteral`: the strict form that conversions accept
- `Decimal.ofText`: the number of a text, or the reason why there is none
-/

namespace Groundplan

/-- What a numeric text writes. -/
inductive Numeral where
  | finite (d : Decimal)
  | infinite (negative : Bool)
  | undefined
deriving DecidableEq, Repr, Inhabited

/-- Why a text gives no number. -/
inductive NumeralProblem where
  /-- The text writes no number at all. -/
  | malformed
  /-- The exponent is beyond what any number may have. -/
  | unrepresentable
  /-- The text, shown as it was given, writes an infinity or not-a-number. -/
  | notFinite (shown : String)
  /-- It is a truth value and no text. -/
  | truthValue
deriving DecidableEq, Repr, Inhabited

/-- The message about a number that is not finite. -/
def NumeralProblem.notFiniteMessage (shown : String) : String :=
  "numbers must be finite, got " ++ shown

namespace Numeral

/-! ## Grammar -/

/-- ASCII lower case, by which the words for infinities are compared. -/
def lowerAscii (cs : List Char) : String :=
  String.ofList (cs.map Char.toLower)

/-- A sign in front of characters: whether it is a minus, and the other characters. -/
def takeSign : List Char → Bool × List Char
  | '-' :: cs => (true, cs)
  | '+' :: cs => (false, cs)
  | cs => (false, cs)

/-- The longest run of digits at the front, and the other characters. -/
def takeDigits (cs : List Char) : List Char × List Char :=
  cs.span Text.isDigit

/-- The power of ten behind a mantissa: nothing, or `e` with a signed run of digits. -/
def readPower? (cs : List Char) : Option Int :=
  match cs with
  | [] => some 0
  | c :: rest =>
    if c == 'e' || c == 'E' then
      let (negative, digits) := takeSign rest
      if digits.isEmpty || !digits.all Text.isDigit then none
      else
        let n : Int := Text.natOfDigits digits
        some (if negative then -n else n)
    else none

/-- Mantissa and power without a sign: digits with at most one point among them. -/
def readUnsigned? (negative : Bool) (cs : List Char) : Option Decimal :=
  let (whole, rest) := takeDigits cs
  let (fraction, rest) := match rest with
    | '.' :: more => takeDigits more
    | _ => ([], rest)
  if whole.isEmpty && fraction.isEmpty then none
  else
    (readPower? rest).map fun power =>
      ⟨negative, Text.natOfDigits (whole ++ fraction), power - fraction.length⟩

/-- Whether the characters are a word for not-a-number, perhaps with digits behind it. -/
def isUndefined (cs : List Char) : Bool :=
  let digitsBehind (n : Nat) := (cs.drop n).all Text.isDigit
  (lowerAscii (cs.take 3) == "nan" && digitsBehind 3)
    || (lowerAscii (cs.take 4) == "snan" && digitsBehind 4)

/-- The generous reading of a numeric text. -/
def read? (text : String) : Option Numeral :=
  let cs := (Text.stripChars text.toList).filter (· != '_')
  let (negative, magnitude) := takeSign cs
  let word := lowerAscii magnitude
  if word == "inf" || word == "infinity" then some (.infinite negative)
  else if isUndefined magnitude then some .undefined
  else (readUnsigned? negative magnitude).map .finite

/-! ## The strict form -/

/-- The characters behind a minus, if there is one. -/
def dropMinus : List Char → List Char
  | '-' :: cs => cs
  | cs => cs

/-- Whether a text has the strict form of a number: an optional minus, digits, optionally a point
with digits behind it, and optionally a signed power of ten. -/
def isLiteral (text : String) : Bool :=
  let (whole, rest) := takeDigits (dropMinus text.toList)
  let behind? := match rest with
    | '.' :: more =>
      let (fraction, rest) := takeDigits more
      if fraction.isEmpty then none else some rest
    | _ => some rest
  !whole.isEmpty && (behind?.bind readPower?).isSome

end Numeral

/-! ## Limits -/

namespace Decimal

/-- The greatest adjusted exponent that a number may be written with. -/
def greatestWritten : Int := 999999999999999999

/-- The least exponent that a number may be written with. -/
def leastWritten : Int := -1999999999999999997

/-- Whether a number's exponent may be written at all. -/
def isRepresentable (d : Decimal) : Bool :=
  d.adjusted ≤ greatestWritten && leastWritten ≤ d.exponent

/-- The number that a text writes. -/
def ofText (text : String) : Except NumeralProblem Decimal :=
  match Numeral.read? text with
  | none => .error .malformed
  | some (.finite d) => if d.isRepresentable then .ok d else .error .unrepresentable
  | some _ => .error (.notFinite (Text.quoteShown text))

end Decimal

end Groundplan
