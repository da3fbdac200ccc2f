import Groundplan.Yaml.Scalar

/-!
# Tokens of YAML texts

Indentation is turned into tokens that open and close blocks.  A mapping is recognised only at the
colon behind its first key; the places where a key may have started are therefore remembered, and
the tokens of the key are inserted there.  Such a key must lie in one line.

## Main definitions

- `Token`
- `Reading`: the tokens read so far, the characters to come, and what may follow
- `Token.ofText?`: the tokens of a text
-/

namespace Groundplan.Yaml

/-- A token of a YAML text. -/
inductive Token where
  | documentStart
  | documentEnd
  | blockSequence
  | blockMapping
  | blockEnd
  | flowSequence
  | flowSequenceEnd
  | flowMapping
  | flowMappingEnd
  | item
  | separator
  | key
  | value
  | scalar (quoted : Bool) (text : String)
deriving DecidableEq, Repr, Inhabited

/-- A place where a key may have started. -/
structure KeyPlace where
  /-- How many tokens stand in front of it. -/
  tokens : Nat
  index : Nat
  line : Nat
  column : Nat
  /-- Whether there is an error unless a key has started there. -/
  required : Bool
deriving DecidableEq, Repr

/-- The state of reading tokens. -/
structure Reading where
  rest : List Char
  index : Nat
  line : Nat
  column : Nat
  tokens : List Token
  /-- The columns of the open blocks, the innermost one first. -/
  indents : List Nat
  /-- Whether a key or a block may start here. -/
  allowsKey : Bool
  /-- Where a key may have started inside of the innermost brackets. -/
  place? : Option KeyPlace
  /-- The same for the enclosing brackets and, at last, outside of all brackets. -/
  outer : List (Option KeyPlace)
deriving Repr

namespace Reading

/-- The state in front of a text. -/
def start (cs : List Char) : Reading :=
  ⟨cs, 0, 0, 0, [], [], true, none, []⟩

/-- Whether the state is inside of brackets. -/
def inFlow (r : Reading) : Bool :=
  !r.outer.isEmpty

/-- The state with one more token. -/
def emit (t : Token) (r : Reading) : Reading :=
  { r with tokens := r.tokens ++ [t] }

/-! ## Going on in the text -/

/-- The state behind the next `n` characters. -/
def advance : Nat → Reading → Reading
  | 0, r => r
  | n + 1, r =>
    match r.rest with
    | [] => r
    | c :: rest =>
      if isBreak c then
        advance n { r with rest := rest, index := r.index + 1, line := r.line + 1, column := 0 }
      else
        advance n { r with
          rest := rest, index := r.index + 1
          column := if c == '\ufeff' then r.column else r.column + 1 }

/-- The state in front of the characters `rest` at the end of the text. -/
def skipTo (rest : List Char) (r : Reading) : Reading :=
  r.advance (r.rest.length - rest.length)

/-- The characters behind spaces, comments and line breaks, and whether a line break has been met.
`comment` says whether the characters belong to a comment. -/
def skipGap (comment broken : Bool) : List Char → Bool × List Char
  | [] => (broken, [])
  | c :: rest =>
    if isBreak c then skipGap false true rest
    else if comment || c == ' ' then skipGap comment broken rest
    else if c == '#' then skipGap true broken rest
    else (broken, c :: rest)

/-- The state in front of the next token. -/
def toToken (r : Reading) : Reading :=
  let (broken, rest) := skipGap false false r.rest
  { r.skipTo rest with allowsKey := r.allowsKey || (broken && !r.inFlow) }

/-! ## Places of keys -/

/-- The greatest number of characters of a key. -/
def keyLimit : Nat := 1024

/-- Whether a key that has started at a place can no longer be completed. -/
def isPast (r : Reading) (place : KeyPlace) : Bool :=
  place.line != r.line || keyLimit < r.index - place.index

/-- Forget the places at which a key can no longer be completed; none of them may be required. -/
def forgetPast? (r : Reading) : Option Reading :=
  if (r.place? :: r.outer).any (·.any fun place => r.isPast place && place.required) then none
  else
    let kept (place? : Option KeyPlace) : Option KeyPlace := place?.filter fun p => !r.isPast p
    some { r with place? := kept r.place?, outer := r.outer.map kept }

/-- Forget the innermost place, which must not be required. -/
def forget? (r : Reading) : Option Reading :=
  if r.place?.any (·.required) then none else some { r with place? := none }

/-- Remember that a key may start here, if one is allowed. -/
def remember? (r : Reading) : Option Reading :=
  if r.allowsKey then
    -- At the margin of an open block nothing but a key can start.
    let required := !r.inFlow && r.indents.head? == some r.column
    r.forget?.map fun r =>
      { r with place? := some ⟨r.tokens.length, r.index, r.line, r.column, required⟩ }
  else some r

/-! ## Blocks -/

/-- Whether a block at a column lies deeper than all open blocks. -/
def deepens (r : Reading) (column : Nat) : Bool :=
  match r.indents with
  | [] => true
  | indent :: _ => indent < column

/-- Open a block at a column if it lies deeper than the open ones; its token comes behind the first
`position` tokens. -/
def openBlock (t : Token) (position column : Nat) (r : Reading) : Reading :=
  if r.deepens column then
    { r with indents := column :: r.indents, tokens := r.tokens.insertIdx position t }
  else r

/-- Close the blocks for which `deeper` holds of their columns, the innermost ones first. -/
def closeBlocks (deeper : Nat → Bool) (r : Reading) : Reading :=
  if r.inFlow then r
  else
    let kept := r.indents.dropWhile deeper
    { r with
      indents := kept
      tokens := r.tokens ++ List.replicate (r.indents.length - kept.length) .blockEnd }

/-! ## Tokens -/

/-- Read the mark of a document. -/
def readMarker? (t : Token) (r : Reading) : Option Reading :=
  (r.closeBlocks fun _ => true).forget?.map fun r =>
    ({ r with allowsKey := false }.advance 3).emit t

/-- Read an opening bracket. -/
def readOpening? (t : Token) (r : Reading) : Option Reading :=
  r.remember?.map fun r =>
    ({ r with allowsKey := true, place? := none, outer := r.place? :: r.outer }.advance 1).emit t

/-- Read a closing bracket. -/
def readClosing? (t : Token) (r : Reading) : Option Reading :=
  match r.outer with
  | [] => none
  | place? :: outer =>
    some (({ r with allowsKey := false, place? := place?, outer := outer }.advance 1).emit t)

/-- Read a comma. -/
def readSeparator? (r : Reading) : Option Reading :=
  r.forget?.map fun r => ({ r with allowsKey := true }.advance 1).emit .separator

/-- Read the dash in front of an item. -/
def readItem? (r : Reading) : Option Reading :=
  if r.inFlow || !r.allowsKey then none
  else
    (r.openBlock .blockSequence r.tokens.length r.column).forget?.map fun r =>
      ({ r with allowsKey := true }.advance 1).emit .item

/-- Read the question mark in front of a key. -/
def readKey? (r : Reading) : Option Reading :=
  if !r.inFlow && !r.allowsKey then none
  else
    let opened :=
      if r.inFlow then r else r.openBlock .blockMapping r.tokens.length r.column
    opened.forget?.map fun r => ({ r with allowsKey := !r.inFlow }.advance 1).emit .key

/-- Read the colon in front of a value.  Where a key may have started, it has. -/
def readValue? (r : Reading) : Option Reading :=
  match r.place? with
  | some place =>
    let keyed := { r with
      -- The mark of the key belongs in front of all that was read since.
      tokens := r.tokens.insertIdx place.tokens .key, place? := none, allowsKey := false }
    let opened :=
      if r.inFlow then keyed else keyed.openBlock .blockMapping place.tokens place.column
    some ((opened.advance 1).emit .value)
  | none =>
    if !r.inFlow && !r.allowsKey then none
    else
      let opened :=
        if r.inFlow then r else r.openBlock .blockMapping r.tokens.length r.column
      some (({ opened with allowsKey := !r.inFlow }.advance 1).emit .value)

/-- Read a scalar that `read` finds in the next characters. -/
def readScalar? (quoted : Bool) (read : List Char → Option (String × List Char)) (r : Reading) :
    Option Reading := do
  let r ← r.remember?
  let (text, rest) ← read r.rest
  return ({ r with allowsKey := false }.skipTo rest).emit (.scalar quoted text)

/-- Read the token that starts with `c`, which `rest` follows. -/
def readToken? (c : Char) (rest : List Char) (r : Reading) : Option Reading :=
  -- Directives in front of a document are not admitted.
  if r.column == 0 && c == '%' then none
  else if r.column == 0 && isMarker '-' r.rest then r.readMarker? .documentStart
  else if r.column == 0 && isMarker '.' r.rest then r.readMarker? .documentEnd
  else if c == '[' then r.readOpening? .flowSequence
  else if c == '\x7b' then r.readOpening? .flowMapping
  else if c == ']' then r.readClosing? .flowSequenceEnd
  else if c == '\x7d' then r.readClosing? .flowMappingEnd
  else if c == ',' then r.readSeparator?
  else if c == '-' && isParted rest then r.readItem?
  else if c == '?' && (r.inFlow || isParted rest) then r.readKey?
  else if c == ':' && (r.inFlow || isParted rest) then r.readValue?
  else if c == '\'' then
    r.readScalar? true fun cs => Scalar.readSingle Gap.none [] (cs.drop 1)
  else if c == '"' then
    r.readScalar? true fun cs => Scalar.readDouble Gap.none [] (cs.drop 1)
  else if Scalar.startsBare r.inFlow c rest then
    -- A scalar ends at a line that is not indented deeper than the block around it.
    let margin := match r.indents with
      | [] => 0
      | indent :: _ => indent + 1
    r.readScalar? false fun cs =>
      some (Scalar.readBare r.inFlow margin Gap.none r.column [] cs cs)
  else none

/-- All tokens from here to the end of the text; `fuel` bounds their number. -/
def readAll? : Nat → Reading → Option (List Token)
  | 0, _ => none
  | fuel + 1, r =>
    r.toToken.forgetPast?.bind fun r =>
      match r.rest with
      | [] =>
        if r.inFlow then none
        else (r.closeBlocks fun _ => true).forget?.map (·.tokens)
      | c :: rest =>
        ((r.closeBlocks fun indent => r.column < indent).readToken? c rest).bind (readAll? fuel)

end Reading

/-- The tokens of a text.  A mark of the byte order in front of it does not count. -/
def Token.ofText? (text : String) : Option (List Token) :=
  let cs := unify text.toList
  let cs := match cs with
    | '\ufeff' :: cs => cs
    | cs => cs
  if cs.all isAdmitted then (Reading.start cs).readAll? (cs.length + 1) else none

end Groundplan.Yaml
