/-!
# The characters of YAML texts

Line breaks, the marks of documents, and the characters that a text may hold at all.

## Main definitions

- `Yaml.isBreak`, `Yaml.isPad`, `Yaml.isParted`
- `Yaml.isMarker`: the marks at which documents start and end
- `Yaml.unify`: a text with one kind of line break
-/

namespace Groundplan.Yaml

/-- Whether a character ends a line. -/
def isBreak (c : Char) : Bool :=
  c == '\n' || c == '\u0085' || c == '\u2028' || c == '\u2029'

/-- The character that a line break stands for inside of a scalar. -/
def breakMeaning (c : Char) : Char :=
  if c == '\u0085' then '\n' else c

/-- Whether a character is a space or a tab. -/
def isPad (c : Char) : Bool :=
  c == ' ' || c == '\t'

/-- Whether nothing, a space, a tab or a line break comes next. -/
def isParted : List Char → Bool
  | [] => true
  | c :: _ => isPad c || isBreak c

/-- Whether the characters begin with a mark of three equal characters that stands alone. -/
def isMarker (mark : Char) : List Char → Bool
  | a :: b :: c :: rest => a == mark && b == mark && c == mark && isParted rest
  | _ => false

/-- Whether a line that begins with these characters separates documents. -/
def isSeparating (cs : List Char) : Bool :=
  isMarker '-' cs || isMarker '.' cs

/-- Whether a text may hold a character. -/
def isAdmitted (c : Char) : Bool :=
  let n := c.toNat
  n == 9 || n == 10 || n == 13 || (32 ≤ n && n ≤ 126) || n == 0x85
    || (0xA0 ≤ n && n ≤ 0xFFFD) || 0x10000 ≤ n

/-- The characters with every carriage return, also one in front of a line feed, turned into a
line feed. -/
def unify : List Char → List Char
  | [] => []
  | '\r' :: '\n' :: cs => '\n' :: unify cs
  | '\r' :: cs => '\n' :: unify cs
  | c :: cs => c :: unify cs

end Groundplan.Yaml
