import Groundplan.Yaml.Character

/-!
# Scalars in YAML texts

A scalar may run over several lines.  Its lines are joined: a single line break becomes a space,
of several line breaks all but the first stay, and the spaces around them are dropped.

## Main definitions

- `Gap`: what lies between two words of a scalar
- `Scalar.readSingle`, `Scalar.readDouble`: scalars between quotes
- `Scalar.readBare`: scalars without quotes
-/

namespace Groundplan.Yaml

/-! ## Gaps -/

/-- What lies between two words of a scalar. -/
inductive Gap where
  /-- Spaces and tabs in one line, the last one first. -/
  | blanks (held : List Char)
  /-- A line break, unless it is escaped, and further ones behind it, the last one first. -/
  | lines (first : Option Char) (more : List Char)
deriving DecidableEq, Repr

namespace Gap

/-- Nothing between two words. -/
def none : Gap := .blanks []

/-- A gap that a space or tab is added to; next to line breaks it does not count. -/
def blank (c : Char) : Gap → Gap
  | .blanks held => .blanks (c :: held)
  | gap => gap

/-- A gap that a line break is added to; spaces and tabs in front of it do not count. -/
def line (c : Char) : Gap → Gap
  | .blanks _ => .lines (some (breakMeaning c)) []
  | .lines first more => .lines first (breakMeaning c :: more)

/-- The characters that a gap stands for, the last one first. -/
def reversed : Gap → List Char
  | .blanks held => held
  | .lines Option.none more => more
  | .lines (some c) more =>
    if c == '\n' then (if more.isEmpty then [' '] else more) else more ++ [c]

end Gap

namespace Scalar

/-! ## Quotes -/

/-- The text behind a single quote up to the next one, and the characters behind that.  Two quotes
write one.  `read` are the characters read so far, the last one first. -/
def readSingle (gap : Gap) (read : List Char) : List Char → Option (String × List Char)
  | [] => none
  | '\'' :: '\'' :: rest => readSingle Gap.none ('\'' :: (gap.reversed ++ read)) rest
  | c :: rest =>
    if c == '\'' then some (String.ofList (gap.reversed ++ read).reverse, rest)
    else if isPad c then readSingle (gap.blank c) read rest
    else if isBreak c then
      if isSeparating rest then none else readSingle (gap.line c) read rest
    else readSingle Gap.none (c :: (gap.reversed ++ read)) rest

/-- The character that an escape of one letter stands for. -/
def unescape? : Char → Option Char
  | '0' => some '\x00'
  | 'a' => some '\x07'
  | 'b' => some '\x08'
  | 't' => some '\t'
  | '\t' => some '\t'
  | 'n' => some '\n'
  | 'v' => some '\x0b'
  | 'f' => some '\x0c'
  | 'r' => some '\r'
  | 'e' => some '\x1b'
  | ' ' => some ' '
  | '"' => some '"'
  | '\\' => some '\\'
  | '/' => some '/'
  | 'N' => some '\u0085'
  | '_' => some '\u00a0'
  | 'L' => some '\u2028'
  | 'P' => some '\u2029'
  | _ => none

/-- The value of a digit of base sixteen. -/
def hexDigit? (c : Char) : Option Nat :=
  if c.isDigit then some (c.toNat - '0'.toNat)
  else if 'a' ≤ c && c ≤ 'f' then some (c.toNat - 'a'.toNat + 10)
  else if 'A' ≤ c && c ≤ 'F' then some (c.toNat - 'A'.toNat + 10)
  else none

/-- The character with the number that some digits of base sixteen write. -/
def charOf? (digits : List Char) : Option Char :=
  match digits.mapM hexDigit? with
  | some values =>
    let n := values.foldl (fun n d => n * 16 + d) 0
    if n.isValidChar then some (Char.ofNat n) else none
  | none => none

/-- The text behind a double quote up to the next one that is not escaped, and the characters
behind that. -/
def readDouble (gap : Gap) (read : List Char) : List Char → Option (String × List Char)
  | [] => none
  | '"' :: rest => some (String.ofList (gap.reversed ++ read).reverse, rest)
  | '\\' :: 'x' :: a :: b :: rest =>
    match charOf? [a, b] with
    | some c => readDouble Gap.none (c :: (gap.reversed ++ read)) rest
    | none => none
  | '\\' :: 'u' :: a :: b :: c :: d :: rest =>
    match charOf? [a, b, c, d] with
    | some c => readDouble Gap.none (c :: (gap.reversed ++ read)) rest
    | none => none
  | '\\' :: 'U' :: a :: b :: c :: d :: e :: f :: g :: h :: rest =>
    match charOf? [a, b, c, d, e, f, g, h] with
    | some c => readDouble Gap.none (c :: (gap.reversed ++ read)) rest
    | none => none
  | '\\' :: c :: rest =>
    if isBreak c then
      if isSeparating rest then none
      else readDouble (.lines none []) (gap.reversed ++ read) rest
    else
      match unescape? c with
      | some c => readDouble Gap.none (c :: (gap.reversed ++ read)) rest
      | none => none
  | c :: rest =>
    if isPad c then readDouble (gap.blank c) read rest
    else if isBreak c then
      if isSeparating rest then none else readDouble (gap.line c) read rest
    else readDouble Gap.none (c :: (gap.reversed ++ read)) rest

/-! ## Bare scalars -/

/-- The characters that have a meaning inside of brackets. -/
def isFlowSign (c : Char) : Bool :=
  c == ',' || c == '[' || c == ']' || c == '\x7b' || c == '\x7d'

/-- Whether a word of a scalar without quotes ends in front of `c`, which `rest` follows.  `flow`
says whether the scalar stands inside of brackets. -/
def endsWord (flow : Bool) (c : Char) (rest : List Char) : Bool :=
  isPad c || isBreak c
    || (c == ':' && (isParted rest || (flow && (rest.head?.map isFlowSign).getD false)))
    || (flow && (c == '?' || isFlowSign c))

/-- Whether a scalar without quotes may start with `c`, which `rest` follows. -/
def startsBare (flow : Bool) (c : Char) (rest : List Char) : Bool :=
  if c == '-' then !isParted rest
  else if c == '?' || c == ':' then !flow && !isParted rest
  else !(isPad c || isBreak c || isFlowSign c || c == '#' || c == '&' || c == '*' || c == '!'
    || c == '|' || c == '>' || c == '\'' || c == '"' || c == '%' || c == '@' || c == '\u0060')

/-- The text of a scalar without quotes, and the characters behind it.  Outside of brackets its
further lines must be indented at least to `margin`.  `behind` are the characters behind the last
word that has been read. -/
def readBare (flow : Bool) (margin : Nat) (gap : Gap) (column : Nat) (read behind : List Char) :
    List Char → String × List Char
  | [] => (String.ofList read.reverse, behind)
  | c :: rest =>
    if c == ' ' then readBare flow margin (gap.blank c) (column + 1) read behind rest
    else if isBreak c then
      if isSeparating rest then (String.ofList read.reverse, behind)
      else readBare flow margin (gap.line c) 0 read behind rest
    else if (gap != Gap.none && (c == '#' || (!flow && column < margin)))
        || endsWord flow c rest then (String.ofList read.reverse, behind)
    else readBare flow margin Gap.none (column + 1) (c :: (gap.reversed ++ read)) rest rest

end Scalar

end Groundplan.Yaml
