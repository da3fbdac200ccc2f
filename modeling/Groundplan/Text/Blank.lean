/-!
# Blank characters

The characters that separate words and are dropped around a text, after version 14 of the Unicode
character database: spaces of every width, line and paragraph breaks, and the tabulating and
separating controls.

## Main definitions

- `Text.isBlank`
- `Text.strip`: a text without the blanks around it
-/

namespace Groundplan.Text

/-- Whether a character is blank. -/
def isBlank (c : Char) : Bool :=
  let n := c.toNat
  (9 ≤ n && n ≤ 13) || (28 ≤ n && n ≤ 32) || n == 0x85 || n == 0xA0 || n == 0x1680
    || (0x2000 ≤ n && n ≤ 0x200A) || n == 0x2028 || n == 0x2029 || n == 0x202F || n == 0x205F
    || n == 0x3000

/-- The characters without the blanks at both ends. -/
def stripChars (cs : List Char) : List Char :=
  ((cs.dropWhile isBlank).reverse.dropWhile isBlank).reverse

/-- The text without the blanks at both ends. -/
def strip (s : String) : String :=
  String.ofList (stripChars s.toList)

end Groundplan.Text
