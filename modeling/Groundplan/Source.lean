import Groundplan.Decimal.Basic

/-!
# Source positions

Positions in configuration text, which expressions and declarations carry so that messages can
point at them.

## Main definitions

- `Location`, `Span`: a position and a range
- `Span.within`: a range within one line
-/

namespace Groundplan

/-- A position in a source file. -/
structure Location where
  /-- Line, counted from one. -/
  line : Int
  /-- Column, counted from one. -/
  column : Int
  /-- Characters before the position. -/
  offset : Int
  /-- The file, if it is known. -/
  filename : Option String
deriving DecidableEq, Repr, Inhabited

/-- A range in a source file. -/
structure Span where
  start : Location
  stop : Location
deriving DecidableEq, Repr, Inhabited

/-- Text of an integer. -/
def showInt (i : Int) : String :=
  String.ofList (Decimal.integerDigits i)

namespace Location

/-- The file name in front of a position; an empty name is left out. -/
def filePart (l : Location) : String :=
  match l.filename with
  | none | some "" => ""
  | some name => name ++ ":"

/-- Line and column. -/
def place (l : Location) : String :=
  showInt l.line ++ ":" ++ showInt l.column

/-- Text of a position. -/
def toText (l : Location) : String :=
  l.filePart ++ l.place

end Location

namespace Span

/-- The range of `length` characters from a column on. -/
def within (line column length : Int) (filename : Option String) : Span :=
  ⟨⟨line, column, 0, filename⟩, ⟨line, column + length, length, filename⟩⟩

/-- Text of a range; the file is named once. -/
def toText (s : Span) : String :=
  s.start.filePart ++ s.start.place ++ "-" ++ s.stop.place

end Span

end Groundplan
