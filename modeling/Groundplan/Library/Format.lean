import Groundplan.Decimal.Notation
import Groundplan.Library.Collection
import Groundplan.Text.Numeral

/-!
# Formatted texts

A format is a text with directives such as `%5.2f` or `%[2]s`, each of which is replaced by an
argument.  A directive names the argument or takes the one behind that of the last directive.

## Main definitions

- `Library.Verb`: what stands behind a percent sign
- `Library.scanDirective?`: the directive at the front of a text
- `Library.formatArgument`: the text of one argument
- `Library.formatFunction`: the function with its signature
-/

namespace Groundplan

namespace Library

/-! ## Directives -/

/-- What stands behind a percent sign: digits for the argument, flags, digits for width and
precision, and a verb. -/
structure Verb where
  explicit : Option (List Char)
  flags : List Char
  width : Option (List Char)
  precision : Option (List Char)
  verb : Char
deriving DecidableEq, Repr, Inhabited

/-- A run of digits that is not empty, and the characters behind it. -/
def takeNumber? (cs : List Char) : Option (List Char × List Char) :=
  match cs.span Text.isDigit with
  | ([], _) => none
  | found => some found

/-- Digits between brackets at the front, if there are any. -/
def takeExplicit (cs : List Char) : Option (List Char) × List Char :=
  match cs with
  | '[' :: rest =>
    match takeNumber? rest with
    | some (digits, ']' :: rest) => (some digits, rest)
    | _ => (none, cs)
  | _ => (none, cs)

/-- Digits behind a point at the front, if there are any. -/
def takePrecision (cs : List Char) : Option (List Char) × List Char :=
  match cs with
  | '.' :: rest =>
    match takeNumber? rest with
    | some (digits, rest) => (some digits, rest)
    | none => (none, cs)
  | _ => (none, cs)

/-- Whether a character is a flag. -/
def isFlag (c : Char) : Bool :=
  c == '-' || c == '+' || c == '#' || c == ' ' || c == '0'

/-- The directive at the front of the characters behind a percent sign. -/
def scanDirective? (cs : List Char) : Option (Verb × List Char) :=
  let (explicit, cs) := takeExplicit cs
  let (flags, cs) := cs.span isFlag
  let (width, cs) := match takeNumber? cs with
    | some (digits, rest) => (some digits, rest)
    | none => (none, cs)
  let (precision, cs) := takePrecision cs
  match cs with
  | c :: rest =>
    if c.isAlpha || c == '%' then some (⟨explicit, flags, width, precision, c⟩, rest) else none
  | [] => none

/-! ## Arguments -/

/-- The number that digits write; there is a limit on how many may be read. -/
def readCount (digits : List Char) : Outcome Nat :=
  if digitLimit < digits.length then .error (.defect (.tooManyDigits (some digits.length)))
  else .ok (Text.natOfDigits digits)

/-- Refuse to format an argument. -/
def unformatted {α : Type} (detail : String) : Outcome α :=
  fail (.functionCall "format" detail) none

/-- The least number of characters or places that no text can have. -/
def addressLimit : Nat := 9223372036854775808

/-- The least number of places that no number may be written with. -/
def placesLimit : Nat := 1000000000000000000

/-- The number of places that digits write.  Plain digits are read however many zeros stand in front
of them, but not if they ask for more digits than may be written. -/
def readPlaces (digits : List Char) : Outcome Nat :=
  let places := Text.natOfDigits digits
  if digits.all Char.isDigit && places < addressLimit then
    if placesLimit ≤ places then .error (.defect (.tooManyDigits none)) else .ok places
  else readCount digits

/-- A number with as many places or digits as no text can have is refused. -/
def checkPlaces (places : Nat) : Outcome Unit :=
  if addressLimit ≤ places then
    unformatted "arithmetic error: cannot fit 'int' into an index-sized integer"
  else .ok ()

/-- A plus sign in front of a number that is not negative, if the flags ask for it. -/
def withPlus (flags : List Char) (n : Decimal) (text : String) : String :=
  if flags.contains '+' && 0 ≤ n.sign then "+" ++ text else text

/-- A number that an argument converts to. -/
def numberOf (arg : Value) : Outcome Decimal := do
  match ← arg.toNumberValue with
  | .number n => return n
  | _ => unsuited "format"

/-- Digits of an integer to a base. -/
private def toBase (base : Nat) (upper : Bool) (i : Int) : String :=
  let digits := Nat.toDigits base i.natAbs
  let digits := if upper then digits.map Char.toUpper else digits
  String.ofList (if i < 0 then '-' :: digits else digits)

/-- Text of an argument before padding. -/
def formatBare (d : Verb) (arg : Value) : Outcome String := do
  let verb := String.singleton d.verb
  if arg.isNull && d.verb ≠ 'v' then
    unformatted ("unsupported value for %" ++ verb ++ ": null")
  match d.verb with
  | 'v' | 's' =>
    -- Composite values are written as JSON, but only if any value may be written.
    let text ←
      if arg.kind.isPrimitive then arg.primitiveText
      else if d.verb = 'v' then ofArithmetic arg.toJson
      else unformatted ("%s cannot format " ++ arg.label)
    match d.precision with
    | none => return text
    | some digits => return String.ofList (text.toList.take (← readCount digits))
  | 'q' =>
    if !arg.kind.isPrimitive then unformatted ("%q cannot format " ++ arg.label)
    return Text.quoteJson (← arg.primitiveText)
  | 't' =>
    match arg with
    | .bool b => return if b then "true" else "false"
    | _ => unformatted ("%t requires a bool, got " ++ arg.label)
  | 'd' =>
    let n ← numberOf arg
    if !n.isWhole then
      unformatted ("%d requires a whole number, got " ++ (← shownValue arg))
    return withPlus d.flags n (← writeInt n.toInt)
  | 'f' | 'e' | 'g' =>
    let n ← numberOf arg
    let places ← readPlaces (d.precision.getD ['6'])
    if d.verb = 'g' then return withPlus d.flags n (n.toGeneral places)
    checkPlaces places
    return withPlus d.flags n (if d.verb = 'f' then n.toPlaces places else n.toExponential places)
  | 'x' | 'X' | 'o' | 'b' =>
    let n ← numberOf arg
    if !n.isWhole then unformatted ("%" ++ verb ++ " requires a whole number")
    let base := if d.verb = 'o' then 8 else if d.verb = 'b' then 2 else 16
    return toBase base (d.verb = 'X') n.toInt
  | _ => unformatted ("unsupported verb %" ++ verb)

/-- Pad a text to a width: on the right, with zeros behind the sign, or on the left. -/
def pad (d : Verb) (width : Nat) (text : String) : String :=
  let cs := text.toList
  let fill := width - cs.length
  if d.flags.contains '-' then String.ofList (cs ++ List.replicate fill ' ')
  else if d.flags.contains '0' && ['d', 'f', 'e', 'g'].contains d.verb then
    match cs with
    | c :: rest =>
      -- Zeros stand between the sign and the digits.
      if c == '-' || c == '+' then String.ofList (c :: (List.replicate fill '0' ++ rest))
      else String.ofList (List.replicate fill '0' ++ cs)
    | [] => String.ofList (List.replicate fill '0')
  else String.ofList (List.replicate fill ' ' ++ cs)

/-- Text of an argument for a directive. -/
def formatArgument (d : Verb) (arg : Value) : Outcome String := do
  let text ← formatBare d arg
  match d.width with
  | none => return text
  | some digits =>
    let width ← readCount digits
    if width ≤ text.length then return text
    checkPlaces (width - text.length)
    return pad d width text

/-! ## Formats -/

/-- The argument that a directive takes: the one it names, or else the next one. -/
def argumentIndex (d : Verb) (next : Nat) : Outcome (Option Nat) :=
  match d.explicit with
  | none => .ok (some next)
  | some digits => do
    match ← readCount digits with
    | 0 => return none
    | n + 1 => return some n

/-- Replace the directives of a format whose characters are counted from `offset`; `next` is the
argument behind that of the last directive, and `fuel` bounds the number of characters. -/
def formatFrom (args : List Value) : Nat → Nat → Nat → List Char → Outcome (List Char)
  | 0, _, _, _ | _, _, _, [] => .ok []
  | fuel + 1, offset, next, c :: cs =>
    match if c = '%' then scanDirective? cs else none with
    | none => do return c :: (← formatFrom args fuel (offset + 1) next cs)
    | some (d, rest) => do
      let offset' := offset + 1 + (cs.length - rest.length)
      if d.verb = '%' then
        return '%' :: (← formatFrom args fuel offset' next rest)
      match (← argumentIndex d next).bind fun index => (args[index]?).map (index, ·) with
      | none =>
        unformatted ("not enough arguments for verb %" ++ String.singleton d.verb
          ++ " at offset " ++ toString offset)
      | some (index, arg) =>
        let text ← formatArgument d arg
        return text.toList ++ (← formatFrom args fuel offset' (index + 1) rest)

/-- A format with its directives replaced by arguments. -/
def format (spec : String) (args : List Value) : Outcome String := do
  let cs := spec.toList
  return String.ofList (← formatFrom args cs.length 0 0 cs)

/-- The function that formats texts. -/
def formatFunction : Function :=
  ⟨⟨"format", [.of "spec" [.string]], some (Param.any "values").orNull, 0, .deep⟩,
    fun
    | .string spec :: args => (format spec args).map .string
    | _ => unsuited "format"⟩

end Library

end Groundplan
