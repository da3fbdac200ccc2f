import Groundplan.Text.Blank
import Groundplan.Text.Case
import Groundplan.Text.Numeral

/-!
# Regular expressions

Trees of regular expressions, as searches between slashes use them, and what single characters
match.

## Main definitions

- `Pattern`: the trees
- `Pattern.Flags`: switches that change what items mean
- `Pattern.ClassItem.matches`: whether a character belongs to an item of a class
- `Pattern.width`: least and greatest number of characters that a pattern matches
-/

namespace Groundplan

namespace Pattern

/-! ## Characters -/

/-- Switches that change what items mean. -/
structure Flags where
  ignoreCase : Bool
  multiline : Bool
  dotAll : Bool
  verbose : Bool
  ascii : Bool
deriving DecidableEq, Repr, Inhabited

/-- No switch set. -/
def Flags.none : Flags := ⟨false, false, false, false, false⟩

/-- Named classes of characters. -/
inductive Category where
  | digit
  | space
  | word
deriving DecidableEq, Repr, Inhabited

/-- Whether a character belongs to a named class, restricted to ASCII or not. -/
def Category.holds (category : Category) (ascii : Bool) (c : Char) : Bool :=
  match category with
  | .digit => if ascii then c.isDigit else Text.isDigit c
  | .space => if ascii then c == ' ' || (9 ≤ c.toNat && c.toNat ≤ 13) else Text.isBlank c
  | .word => if ascii then c.isAlphanum || c == '_' else Text.isWordChar c

/-- An item of a class of characters. -/
inductive ClassItem where
  /-- The code points between two bounds. -/
  | range (low high : Nat)
  | named (category : Category) (ascii negated : Bool)
deriving DecidableEq, Repr, Inhabited

/-- Lower-case characters that have the same upper case, besides those with a single pair of
letters. -/
def caseVariants : List (List Nat) := [
  [0x69, 0x131], [0x73, 0x17f], [0xb5, 0x3bc], [0x345, 0x3b9, 0x1fbe], [0x390, 0x1fd3],
  [0x3b0, 0x1fe3], [0x3b2, 0x3d0], [0x3b5, 0x3f5], [0x3b8, 0x3d1], [0x3ba, 0x3f0], [0x3c0, 0x3d6],
  [0x3c1, 0x3f1], [0x3c2, 0x3c3], [0x3c6, 0x3d5], [0x432, 0x1c80], [0x434, 0x1c81],
  [0x43e, 0x1c82], [0x441, 0x1c83], [0x442, 0x1c84, 0x1c85], [0x44a, 0x1c86], [0x463, 0x1c87],
  [0x1c88, 0xa64b], [0x1e61, 0x1e9b], [0xfb05, 0xfb06]]

/-- The characters that count as equal to a character when case does not matter. -/
def sameLetters (ascii : Bool) (c : Char) : List Char :=
  if ascii then [c, c.toLower, c.toUpper]
  else
    let low := Text.lowerChar c
    let variants := (caseVariants.filter (·.contains low.toNat)).flatten.map Char.ofNat
    let lowers := low :: variants
    c :: lowers ++ lowers.map Text.upperChar

/-- Whether a character belongs to an item of a class. -/
def ClassItem.holds (item : ClassItem) (c : Char) : Bool :=
  match item with
  | .range low high => low ≤ c.toNat && c.toNat ≤ high
  | .named category ascii negated => category.holds ascii c != negated

/-- Whether a character belongs to a class, perhaps in another case. -/
def inClass (items : List ClassItem) (ignoreCase ascii : Bool) (c : Char) : Bool :=
  let candidates := if ignoreCase then sameLetters ascii c else [c]
  items.any fun item =>
    match item with
    | .range .. => candidates.any item.holds
    | .named .. => item.holds c

/-! ## Patterns -/

/-- Conditions on a position. -/
inductive Anchor where
  | textStart
  | textEnd
  | lineStart
  | lineEnd
  /-- The end, or in front of a line break at the end. -/
  | lastLineEnd
  | wordBoundary (ascii : Bool)
  | noWordBoundary (ascii : Bool)
deriving DecidableEq, Repr, Inhabited

/-- How a repetition chooses its number of turns. -/
inductive Greed where
  | greedy
  | reluctant
  /-- As many turns as possible, never fewer. -/
  | possessive
deriving DecidableEq, Repr, Inhabited

end Pattern

/-- A regular expression. -/
inductive Pattern where
  /-- One character of a class, or outside of it. -/
  | chars (items : List Pattern.ClassItem) (negated ignoreCase ascii : Bool)
  /-- Any character, or any but a line break. -/
  | any (lineBreaks : Bool)
  | anchor (anchor : Pattern.Anchor)
  | sequence (patterns : List Pattern)
  | choice (patterns : List Pattern)
  | group (number : Nat) (body : Pattern)
  | repetition (least : Nat) (most : Option Nat) (greed : Pattern.Greed) (body : Pattern)
  /-- The first match of the body only. -/
  | atomic (body : Pattern)
  /-- A condition on what follows or, if `behind` is given, on that many characters before. -/
  | look (behind : Option Nat) (negated : Bool) (body : Pattern)
  | backReference (number : Nat) (ignoreCase ascii : Bool)
  /-- One pattern if a group has matched and another if not. -/
  | ifGroup (number : Nat) (whenMatched otherwise : Pattern)
deriving Repr, Inhabited

namespace Pattern

/-- Least and greatest number of characters; the greatest may be unbounded. -/
abbrev Width := Nat × Option Nat

/-- Width of one pattern behind another. -/
def Width.plus (a b : Width) : Width :=
  (a.1 + b.1, a.2.bind fun x => b.2.map (x + ·))

/-- Width of one pattern or another. -/
def Width.either (a b : Width) : Width :=
  (min a.1 b.1, a.2.bind fun x => b.2.map (max x ·))

/-- Width of a repetition. -/
def Width.times (w : Width) (least : Nat) (most : Option Nat) : Width :=
  (w.1 * least,
    match w.2, most with
    | some 0, _ => some 0
    | some x, some n => some (x * n)
    | none, some 0 => some 0
    | _, _ => none)

mutual

/-- Least and greatest number of characters that a pattern matches, given those of groups. -/
def width (groups : Nat → Width) : Pattern → Width
  | .chars .. | .any _ => (1, some 1)
  | .anchor _ | .look .. => (0, some 0)
  | .sequence patterns => sequenceWidth groups patterns
  | .choice patterns => choiceWidth groups patterns
  | .group _ body | .atomic body => width groups body
  | .repetition least most _ body => (width groups body).times least most
  | .backReference number .. => groups number
  | .ifGroup _ whenMatched otherwise =>
    (width groups whenMatched).either (width groups otherwise)

/-- Width of patterns one behind the other. -/
def sequenceWidth (groups : Nat → Width) : List Pattern → Width
  | [] => (0, some 0)
  | p :: ps => (width groups p).plus (sequenceWidth groups ps)

/-- Width of alternative patterns. -/
def choiceWidth (groups : Nat → Width) : List Pattern → Width
  | [] => (0, some 0)
  | [p] => width groups p
  | p :: ps => (width groups p).either (choiceWidth groups ps)

end

end Pattern

end Groundplan
