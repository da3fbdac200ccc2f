import Groundplan.Text.Printable

/-!
# Quoted texts

Three ways to write a text between quotes.

## Main definitions

- `Text.quote`: as a literal of the configuration language
- `Text.quoteJson`: as a JSON string of ASCII characters
- `Text.quoteShown`: as messages show a text that was given, with every invisible character escaped
-/

namespace Groundplan.Text

/-! ## Hexadecimal digits -/

/-- A number in lower-case hexadecimal digits, padded with zeros to at least `width` digits. -/
def hex (width n : Nat) : List Char :=
  let digits := Nat.toDigits 16 n
  List.replicate (width - digits.length) '0' ++ digits

/-! ## Literals -/

/-- A character inside a literal of the configuration language. -/
def escapeLiteral : Char → List Char
  | '\\' => ['\\', '\\']
  | '"' => ['\\', '"']
  | '\n' => ['\\', 'n']
  | c => [c]

/-- A text as a literal of the configuration language. -/
def quote (s : String) : String :=
  String.ofList ('"' :: (s.toList.flatMap escapeLiteral ++ ['"']))

/-! ## JSON -/

/-- A UTF-16 unit as a JSON escape. -/
def escapeUnit (n : Nat) : List Char :=
  '\\' :: 'u' :: hex 4 n

/-- A character inside a JSON string: printable ASCII stays, and what lies beyond the first plane
becomes two surrogate units. -/
def escapeJson (c : Char) : List Char :=
  match c with
  | '"' => ['\\', '"']
  | '\\' => ['\\', '\\']
  | '\n' => ['\\', 'n']
  | '\r' => ['\\', 'r']
  | '\t' => ['\\', 't']
  | '\x0c' => ['\\', 'f']
  | '\x08' => ['\\', 'b']
  | c =>
    let n := c.toNat
    if 32 ≤ n && n ≤ 126 then [c]
    else if n < 0x10000 then escapeUnit n
    else escapeUnit (0xD800 + (n - 0x10000) / 0x400) ++ escapeUnit (0xDC00 + (n - 0x10000) % 0x400)

/-- A text as a JSON string. -/
def quoteJson (s : String) : String :=
  String.ofList ('"' :: (s.toList.flatMap escapeJson ++ ['"']))

/-! ## Shown texts -/

/-- A character of a shown text between quotes of the kind `mark`. -/
def escapeShown (mark c : Char) : List Char :=
  if c == mark || c == '\\' then ['\\', c]
  else if c == '\n' then ['\\', 'n']
  else if c == '\r' then ['\\', 'r']
  else if c == '\t' then ['\\', 't']
  else if isPrintable c then [c]
  else if c.toNat < 0x100 then '\\' :: 'x' :: hex 2 c.toNat
  else if c.toNat < 0x10000 then '\\' :: 'u' :: hex 4 c.toNat
  else '\\' :: 'U' :: hex 8 c.toNat

/-- A text as messages show it: between single quotes, or between double quotes if it holds a
single quote and no double one. -/
def quoteShown (s : String) : String :=
  let cs := s.toList
  let mark := if cs.contains '\'' && !cs.contains '"' then '"' else '\''
  String.ofList (mark :: (cs.flatMap (escapeShown mark) ++ [mark]))

end Groundplan.Text
