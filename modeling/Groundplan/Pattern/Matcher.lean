import Groundplan.Pattern.Basic
import Groundplan.Table

/-!
# Matching regular expressions

A pattern is matched at a position by trying its possibilities in order of preference.  Matching
takes the rest of the work as a continuation: a possibility counts only if the rest succeeds too,
and otherwise the next one is tried.

## Main definitions

- `Pattern.Progress`: how far a match has come, and what groups have matched
- `Pattern.run`: match a pattern and go on
- `Pattern.matchAt?`: the preferred match at a position
-/

namespace Groundplan

namespace Pattern

/-- How far a match has come. -/
structure Progress where
  position : Nat
  /-- First and last position of the groups that have matched. -/
  groups : Table Nat (Nat × Nat)
deriving Repr, Inhabited

/-- The rest of the work, which may fail. -/
abbrev Continuation := Progress → Option Progress

/-- A pattern as what it does before a continuation. -/
abbrev Action := Progress → Continuation → Option Progress

/-! ## Positions -/

/-- Whether a character of a word stands at a position. -/
private def wordAt (text : Array Char) (ascii : Bool) (position : Nat) : Bool :=
  match text[position]? with
  | some c => Category.word.holds ascii c
  | none => false

/-- Whether a word starts or ends at a position. -/
private def atBoundary (text : Array Char) (ascii : Bool) (position : Nat) : Bool :=
  let before := position ≠ 0 && wordAt text ascii (position - 1)
  before != wordAt text ascii position

/-- Whether a line break stands at a position. -/
private def breakAt (text : Array Char) (position : Nat) : Bool :=
  text[position]? == some '\n'

/-- Whether a condition holds at a position. -/
def Anchor.holds (anchor : Anchor) (text : Array Char) (position : Nat) : Bool :=
  match anchor with
  | .textStart => position == 0
  | .textEnd => position == text.size
  | .lineStart => position == 0 || breakAt text (position - 1)
  | .lineEnd => position == text.size || breakAt text position
  | .lastLineEnd =>
    position == text.size || (position + 1 == text.size && breakAt text position)
  | .wordBoundary ascii => !text.isEmpty && atBoundary text ascii position
  | .noWordBoundary ascii => !text.isEmpty && !atBoundary text ascii position

/-! ## Repetitions -/

/-- Turns of a repetition.  `count` turns have been made, and the last voluntary one started at
`last`; a turn that starts where the last one did is not followed by another.  `fuel` bounds the
number of turns that are left. -/
private def turns (body : Action) (least : Nat) (most : Option Nat) (reluctant : Bool) :
    Nat → Nat → Option Nat → Action
  | 0, _, _, p, rest => rest p
  | fuel + 1, count, last, p, rest =>
    if count < least then
      body p fun p' => turns body least most reluctant fuel (count + 1) last p' rest
    else
      -- A turn of no characters may end the repetition, but not follow itself.
      let mayGoOn := (match most with
        | none => true
        | some most => count < most) && last ≠ some p.position
      let goOn (_ : Unit) :=
        if mayGoOn then
          body p fun p' =>
            turns body least most reluctant fuel (count + 1) (some p.position) p' rest
        else none
      if reluctant then (rest p).or (goOn ()) else (goOn ()).or (rest p)

/-- As many turns as possible, each taken as it first matches. -/
private def allTurns (body : Action) (least : Nat) (most : Option Nat) :
    Nat → Nat → Option Nat → Progress → Option Progress
  | 0, _, _, p => some p
  | fuel + 1, count, last, p =>
    let mayGoOn := count < least || ((match most with
      | none => true
      | some most => count < most) && last ≠ some p.position)
    let next := if mayGoOn then body p some else none
    match next with
    | some p' => allTurns body least most fuel (count + 1) (some p.position) p'
    | none => if count < least then none else some p

/-! ## Characters and groups -/

/-- Match the characters of a list, perhaps in another case. -/
private def literally (text : Array Char) (ignoreCase ascii : Bool) :
    List Char → Nat → Option Nat
  | [], position => some position
  | c :: cs, position =>
    match text[position]? with
    | some d =>
      let same := c == d || (ignoreCase && (sameLetters ascii c).contains d)
      if same then literally text ignoreCase ascii cs (position + 1) else none
    | none => none

/-- The characters that a group has matched. -/
def groupText? (text : Array Char) (p : Progress) (number : Nat) : Option (List Char) :=
  (Table.get? p.groups number).map fun (first, last) => (text.extract first last).toList

/-! ## Patterns -/

mutual

/-- Match a pattern and go on. -/
def run (text : Array Char) : Pattern → Action
  | .chars items negated ignoreCase ascii, p, rest =>
    match text[p.position]? with
    | some c =>
      if inClass items ignoreCase ascii c != negated then
        rest { p with position := p.position + 1 }
      else none
    | none => none
  | .any lineBreaks, p, rest =>
    match text[p.position]? with
    | some c =>
      if lineBreaks || c != '\n' then rest { p with position := p.position + 1 } else none
    | none => none
  | .anchor condition, p, rest => if condition.holds text p.position then rest p else none
  | .sequence patterns, p, rest => runAll text patterns p rest
  | .choice patterns, p, rest => runFirst text patterns p rest
  | .group number body, p, rest =>
    run text body p fun p' =>
      rest { p' with groups := Table.put p'.groups number (p.position, p'.position) }
  | .repetition least most greed body, p, rest =>
    -- Every turn but the needed ones and the last moves on by a character.
    let fuel := least + (text.size - p.position) + 2
    match greed with
    | .greedy => turns (run text body) least most false fuel 0 none p rest
    | .reluctant => turns (run text body) least most true fuel 0 none p rest
    | .possessive =>
      match allTurns (run text body) least most fuel 0 none p with
      | some p' => rest p'
      | none => none
  | .atomic body, p, rest =>
    match run text body p some with
    | some p' => rest p'
    | none => none
  | .look behind negated body, p, rest =>
    let found := match behind with
      | none => run text body p some
      | some count =>
        -- The body has a fixed width, so that its start is known.
        if count ≤ p.position then run text body { p with position := p.position - count } some
        else none
    match found, negated with
    | some p', false => rest { p' with position := p.position }
    | none, true => rest p
    | _, _ => none
  | .backReference number ignoreCase ascii, p, rest =>
    match groupText? text p number with
    | some cs =>
      match literally text ignoreCase ascii cs p.position with
      | some position => rest { p with position := position }
      | none => none
    | none => none
  | .ifGroup number whenMatched otherwise, p, rest =>
    if Table.has p.groups number then run text whenMatched p rest else run text otherwise p rest

/-- Match patterns one behind the other and go on. -/
def runAll (text : Array Char) : List Pattern → Action
  | [], p, rest => rest p
  | pattern :: patterns, p, rest => run text pattern p fun p' => runAll text patterns p' rest

/-- Match the first of some patterns after which the rest succeeds. -/
def runFirst (text : Array Char) : List Pattern → Action
  | [], _, _ => none
  | pattern :: patterns, p, rest => (run text pattern p rest).or (runFirst text patterns p rest)

end

/-- The preferred match at a position; `advance` refuses a match of no characters. -/
def matchAt? (pattern : Pattern) (text : Array Char) (position : Nat) (advance : Bool) :
    Option Progress :=
  run text pattern ⟨position, []⟩ fun p =>
    if advance && p.position == position then none else some p

end Pattern

end Groundplan
