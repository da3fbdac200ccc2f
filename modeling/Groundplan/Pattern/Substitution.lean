import Groundplan.Pattern.Matcher
import Groundplan.Pattern.Reader

/-!
# Substitution of regular expressions

Every match of a pattern is replaced, from left to right and without overlap.  In a replacement
`$1` and `${1}` stand for what a group has matched, and `$0` for the whole match.

## Main definitions

- `Pattern.Replacement`: replacements as texts and group references
- `Pattern.substitute`: a text with all matches replaced
-/

namespace Groundplan

namespace Pattern

/-! ## Replacements -/

/-- A part of a replacement. -/
inductive ReplacementPart where
  | char (c : Char)
  | group (number : Nat)
deriving DecidableEq, Repr, Inhabited

/-- The group reference behind a dollar sign, with the characters left: digits, perhaps behind an
opening and in front of a closing brace, either of which may be there without the other. -/
private def readGroup? (cs : List Char) : Option (Nat × List Char) :=
  let inside := match cs with
    | '\x7b' :: rest => rest
    | cs => cs
  let (digits, rest) := inside.span Text.isDigit
  if digits.isEmpty then none
  else
    let rest := match rest with
      | '\x7d' :: rest => rest
      | rest => rest
    some (Text.natOfDigits digits, rest)

/-- The parts of a replacement; `fuel` bounds the number of characters. -/
private def readParts (fuel : Nat) (cs : List Char) : List ReplacementPart :=
  match fuel, cs with
  | 0, _ | _, [] => []
  | fuel + 1, '$' :: rest =>
    match readGroup? rest with
    | some (number, rest) => .group number :: readParts fuel rest
    | none => .char '$' :: readParts fuel rest
  | fuel + 1, c :: rest => .char c :: readParts fuel rest

/-- The parts of a replacement for a pattern with some groups, unless it refers to another. -/
def readReplacement (groups : Nat) (cs : List Char) : Except ReadProblem (List ReplacementPart) :=
  let parts := readParts cs.length cs
  let known : ReplacementPart → Bool
    | .char _ => true
    | .group number => number ≤ groups
  if parts.all known then .ok parts else .error .invalid

/-- What a replacement becomes for a match from `start` on; a group without a match is empty. -/
def fill (text : Array Char) (start : Nat) (p : Progress) (parts : List ReplacementPart) :
    List Char :=
  parts.flatMap fun part =>
    match part with
    | .char c => [c]
    | .group 0 => (text.extract start p.position).toList
    | .group number => (groupText? text p number).getD []

/-! ## Substitution -/

/-- The first match at or behind a position, with the place where it starts. -/
private def searchFrom (pattern : Pattern) (text : Array Char) :
    Nat → Nat → Bool → Option (Nat × Progress)
  | 0, _, _ => none
  | fuel + 1, position, advance =>
    match pattern.matchAt? text position advance with
    | some p => some (position, p)
    | none => searchFrom pattern text fuel (position + 1) false

/-- Replace the matches at or behind a position.  A match of no characters is not looked for where
another such match has just been replaced. -/
private def substituteFrom (pattern : Pattern) (text : Array Char) (parts : List ReplacementPart) :
    Nat → Nat → Bool → List Char
  | 0, position, _ => (text.extract position text.size).toList
  | fuel + 1, position, advance =>
    match searchFrom pattern text (text.size + 1 - position) position advance with
    | none => (text.extract position text.size).toList
    | some (start, p) =>
      (text.extract position start).toList ++ fill text start p parts
        ++ substituteFrom pattern text parts fuel p.position (p.position == start)

/-- The text with every match of a written pattern replaced. -/
def substitute (pattern replacement text : String) : Except ReadProblem String := do
  let (pattern, groups) ← read pattern.toList
  let parts ← readReplacement groups replacement.toList
  let chars := text.toList.toArray
  return String.ofList (substituteFrom pattern chars parts (2 * chars.size + 2) 0 false)

end Pattern

end Groundplan
