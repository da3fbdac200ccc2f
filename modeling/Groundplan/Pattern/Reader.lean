import Groundplan.Pattern.Basic
import Groundplan.Table

/-!
# Reading regular expressions

## Main definitions

- `Pattern.ReadProblem`: why a text is no regular expression
- `Pattern.read`: the regular expression that a text writes, and its number of groups
-/

namespace Groundplan

namespace Pattern

/-! ## Reader state -/

/-- Why a text is no regular expression. -/
inductive ReadProblem where
  | invalid
  /-- A bound of a repetition is beyond what a repetition may count. -/
  | tooManyTurns
deriving DecidableEq, Repr, Inhabited

/-- What a reader knows: the characters left, and the groups met so far. -/
structure ReadState where
  rest : List Char
  /-- The number of the next group. -/
  nextGroup : Nat
  names : Table String Nat
  /-- The widths of the groups that are closed. -/
  widths : Table Nat Width
  /-- Inside of a look behind, the number of the first group that it may not refer to. -/
  behindFrom : Option Nat
  /-- Numbers of groups that conditions ask for. -/
  asked : List Nat
  /-- Switches for the whole pattern. -/
  flags : Flags

/-- Readers change the state and may fail. -/
abbrev Reader (α : Type) := ReadState → Except ReadProblem (α × ReadState)

/-- The bound that a repetition must stay below. -/
def turnLimit : Nat := 4294967295

/-- The characters that verbose patterns skip. -/
private def isFiller (c : Char) : Bool :=
  c == ' ' || (9 ≤ c.toNat && c.toNat ≤ 13)

/-- The value of a hexadecimal digit. -/
private def hexValue (c : Char) : Nat :=
  if c.isDigit then c.toNat - '0'.toNat else c.toLower.toNat - 'a'.toNat + 10

/-- Whether a character is a hexadecimal digit. -/
private def isHexDigit (c : Char) : Bool :=
  c.isDigit || ('a' ≤ c.toLower && c.toLower ≤ 'f')

/-- Whether a character is an octal digit. -/
private def isOctalDigit (c : Char) : Bool :=
  '0' ≤ c && c ≤ '7'

/-- The number that digits to a base write. -/
private def valueOf (base : Nat) (digits : List Char) : Nat :=
  digits.foldl (fun n c => base * n + hexValue c) 0

/-- Whether a text may name a group. -/
private def isGroupName (name : List Char) : Bool :=
  match name with
  | [] => false
  | c :: cs =>
    (Text.isWordChar c && !Text.isDigit c) && cs.all Text.isWordChar

/-! ## Escapes -/

/-- A character with a fixed number of hexadecimal digits. -/
private def readHexadecimal (count : Nat) (cs : List Char) : Except ReadProblem (Nat × List Char) :=
  let digits := cs.take count
  if digits.length = count && digits.all isHexDigit then .ok (valueOf 16 digits, cs.drop count)
  else .error .invalid

/-- The code point of an escape that stands for one character, both in and outside of classes. -/
private def plainEscape? (c : Char) : Option Nat :=
  match c with
  | 'a' => some 7
  | 'f' => some 12
  | 'n' => some 10
  | 'r' => some 13
  | 't' => some 9
  | 'v' => some 11
  | _ => if c.isAlphanum then none else some c.toNat

/-- The class that an escape names. -/
private def categoryEscape? (ascii : Bool) (c : Char) : Option ClassItem :=
  match c with
  | 'd' => some (.named .digit ascii false)
  | 'D' => some (.named .digit ascii true)
  | 's' => some (.named .space ascii false)
  | 'S' => some (.named .space ascii true)
  | 'w' => some (.named .word ascii false)
  | 'W' => some (.named .word ascii true)
  | _ => none

/-- The code point of a numeric escape, whose letter has been read. -/
private def codeEscape (c : Char) (cs : List Char) : Except ReadProblem (Nat × List Char) :=
  match c with
  | 'x' => readHexadecimal 2 cs
  | 'u' => readHexadecimal 4 cs
  | 'U' => do
    let (code, rest) ← readHexadecimal 8 cs
    if 0x110000 ≤ code then throw .invalid
    return (code, rest)
  | _ => .error .invalid

/-- An item of a class behind a backslash. -/
private def classEscape (ascii : Bool) (c : Char) (cs : List Char) :
    Except ReadProblem (ClassItem × List Char) :=
  match categoryEscape? ascii c with
  | some item => .ok (item, cs)
  | none =>
    if c == 'b' then .ok (.range 8 8, cs)
    else if isOctalDigit c then
      let more := (cs.take 2).takeWhile isOctalDigit
      let code := valueOf 8 (c :: more)
      if 0xff < code then .error .invalid
      else .ok (.range code code, cs.drop more.length)
    else
      match plainEscape? c with
      | some code => .ok (.range code code, cs)
      | none => do
        let (code, rest) ← codeEscape c cs
        return (.range code code, rest)

/-- One character, in any case if case does not matter. -/
def single (flags : Flags) (code : Nat) : Pattern :=
  .chars [.range code code] false flags.ignoreCase flags.ascii

/-- A reference to a group, which must be closed and not belong to the look behind around it. -/
private def referTo (flags : Flags) (number : Nat) : Reader Pattern := fun s =>
  if !Table.has s.widths number then .error .invalid
  else
    match s.behindFrom with
    | some first =>
      if first ≤ number then .error .invalid
      else .ok (.backReference number flags.ignoreCase flags.ascii, s)
    | none => .ok (.backReference number flags.ignoreCase flags.ascii, s)

/-- A pattern behind a backslash; the state is behind the escaped character. -/
private def readEscape (flags : Flags) (c : Char) : Reader Pattern := fun s =>
  let ok (p : Pattern) : Except ReadProblem (Pattern × ReadState) := .ok (p, s)
  match c with
  | 'A' => ok (.anchor .textStart)
  | 'Z' => ok (.anchor .textEnd)
  | 'b' => ok (.anchor (.wordBoundary flags.ascii))
  | 'B' => ok (.anchor (.noWordBoundary flags.ascii))
  | '0' =>
    let more := (s.rest.take 2).takeWhile isOctalDigit
    .ok (single flags (valueOf 8 more), { s with rest := s.rest.drop more.length })
  | _ =>
    match categoryEscape? flags.ascii c with
    | some item => ok (.chars [item] false flags.ignoreCase flags.ascii)
    | none =>
      if c.isDigit then
        match s.rest with
        | d :: e :: rest =>
          if d.isDigit && isOctalDigit c && isOctalDigit d && isOctalDigit e then
            let code := valueOf 8 [c, d, e]
            if 0xff < code then .error .invalid
            else .ok (single flags code, { s with rest := rest })
          else if d.isDigit then
            referTo flags (valueOf 10 [c, d]) { s with rest := e :: rest }
          else referTo flags (valueOf 10 [c]) s
        | [d] =>
          if d.isDigit then referTo flags (valueOf 10 [c, d]) { s with rest := [] }
          else referTo flags (valueOf 10 [c]) s
        | [] => referTo flags (valueOf 10 [c]) s
      else
        match plainEscape? c with
        | some code => ok (single flags code)
        | none => do
          let (code, rest) ← codeEscape c s.rest
          return (single flags code, { s with rest := rest })

/-! ## Classes -/

/-- One item of a class, and the characters behind it. -/
private def readClassItem (ascii : Bool) (cs : List Char) :
    Except ReadProblem (ClassItem × List Char) :=
  match cs with
  | [] | ['\\'] => .error .invalid
  | '\\' :: c :: rest => classEscape ascii c rest
  | c :: rest => .ok (.range c.toNat c.toNat, rest)

/-- The items of a class up to the closing bracket; `fuel` bounds their number. -/
private def readClassItems (ascii : Bool) (fuel : Nat) (items : List ClassItem) (cs : List Char) :
    Except ReadProblem (List ClassItem × List Char) :=
  match fuel with
  | 0 => .error .invalid
  | fuel + 1 =>
    match cs, items with
    | ']' :: rest, _ :: _ => .ok (items, rest)
    | cs, items => do
      let (item, rest) ← readClassItem ascii cs
      match rest with
      | '-' :: ']' :: rest => return (items ++ [item, .range 45 45], rest)
      | '-' :: rest =>
        let (upper, rest) ← readClassItem ascii rest
        match item, upper with
        | .range low _, .range high _ =>
          if high < low then throw .invalid
          readClassItems ascii fuel (items ++ [.range low high]) rest
        | _, _ => throw .invalid
      | rest => readClassItems ascii fuel (items ++ [item]) rest

/-- A class of characters behind its opening bracket. -/
private def readClass (flags : Flags) : Reader Pattern := fun s => do
  let (negated, cs) := match s.rest with
    | '^' :: cs => (true, cs)
    | cs => (false, cs)
  let (items, rest) ← readClassItems flags.ascii (cs.length + 1) [] cs
  return (.chars items negated flags.ignoreCase flags.ascii, { s with rest := rest })

/-! ## Repetitions -/

/-- The bounds of a repetition in braces, behind the opening brace; nothing if the brace stands
for itself. -/
private def readBounds? (cs : List Char) :
    Except ReadProblem (Option (Nat × Option Nat × List Char)) :=
  match cs with
  | '\x7d' :: _ => .ok none
  | cs =>
    let (low, rest) := cs.span Char.isDigit
    let (high, rest) := match rest with
      | ',' :: rest => rest.span Char.isDigit
      | rest => (low, rest)
    match rest with
    | '\x7d' :: rest =>
      let least := valueOf 10 low
      let most := valueOf 10 high
      if turnLimit ≤ least || (!high.isEmpty && turnLimit ≤ most) then .error .tooManyTurns
      else if !high.isEmpty && most < least then .error .invalid
      else .ok (some (least, if high.isEmpty then none else some most, rest))
    | _ => .ok none

/-- Repeat the pattern read last, with the bounds just read. -/
private def repeatLast (least : Nat) (most : Option Nat) (before : List Pattern)
    (cs : List Char) : Except ReadProblem (List Pattern × List Char) :=
  match before with
  -- There is nothing to repeat.
  | [] | .anchor _ :: _ | .repetition .. :: _ => .error .invalid
  | body :: before =>
    match cs with
    | '?' :: rest => .ok (.repetition least most .reluctant body :: before, rest)
    | '+' :: rest => .ok (.repetition least most .possessive body :: before, rest)
    | rest => .ok (.repetition least most .greedy body :: before, rest)

/-! ## Groups -/

/-- The characters up to a closing character, which must be there, and those behind it. -/
private def readUntil (stop : Char) (cs : List Char) : Except ReadProblem (List Char × List Char) :=
  match cs.span (· != stop) with
  | (name, _ :: rest) => if name.isEmpty then .error .invalid else .ok (name, rest)
  | (_, []) => .error .invalid

/-- The characters behind a comment. -/
private def skipComment : List Char → Except ReadProblem (List Char)
  | [] => .error .invalid
  | ')' :: rest => .ok rest
  | '\\' :: _ :: rest => skipComment rest
  | _ :: rest => skipComment rest

/-- The characters behind the rest of a line. -/
private def skipLine : List Char → List Char
  | [] => []
  | '\n' :: rest => rest
  | '\\' :: _ :: rest => skipLine rest
  | _ :: rest => skipLine rest

/-- Switch one flag on or off. -/
private def setFlag? (value : Bool) (c : Char) (flags : Flags) : Option Flags :=
  match c with
  | 'i' => some { flags with ignoreCase := value }
  | 'm' => some { flags with multiline := value }
  | 's' => some { flags with dotAll := value }
  | 'x' => some { flags with verbose := value }
  | 'a' => if value then some { flags with ascii := true } else none
  | 'u' => if value then some { flags with ascii := false } else none
  | _ => none

/-- Switch flags on or off one after another. -/
private def setFlags (value : Bool) (letters : List Char) (flags : Flags) :
    Except ReadProblem Flags :=
  letters.foldlM (fun flags c =>
    match setFlag? value c flags with
    | some flags => .ok flags
    | none => .error .invalid) flags

/-- Flags behind the question mark of a group: the flags that result, whether they are meant for
the whole pattern, and the characters left. -/
private def readFlags (flags : Flags) (cs : List Char) :
    Except ReadProblem (Flags × Bool × List Char) := do
  let (on, rest) := cs.span fun c => c.isAlpha
  if on.contains 'a' && on.contains 'u' then throw .invalid
  let switched ← setFlags true on flags
  match rest with
  | ')' :: rest => if on.isEmpty then throw .invalid else return (switched, true, rest)
  | ':' :: rest => if on.isEmpty then throw .invalid else return (switched, false, rest)
  | '-' :: rest =>
    let (off, rest) := rest.span fun c => c.isAlpha
    if off.isEmpty || off.any on.contains then throw .invalid
    let switched ← setFlags false off switched
    match rest with
    | ':' :: rest => return (switched, false, rest)
    | _ => throw .invalid
  | _ => throw .invalid

/-- Open a group, which may have a name. -/
private def openGroup (name : Option String) : Reader Nat := fun s =>
  let number := s.nextGroup
  let s := { s with nextGroup := number + 1 }
  match name with
  | none => .ok (number, s)
  | some name =>
    if Table.has s.names name then .error .invalid
    else .ok (number, { s with names := Table.put s.names name number })

/-- The widths of closed groups. -/
def ReadState.groupWidth (s : ReadState) (number : Nat) : Width :=
  (Table.get? s.widths number).getD (0, some 0)

/-- Expect a closing parenthesis. -/
private def closeParenthesis : Reader Unit := fun s =>
  match s.rest with
  | ')' :: rest => .ok ((), { s with rest := rest })
  | _ => .error .invalid

/-- The group that a condition asks for, by name or number. -/
private def conditionGroup (name : List Char) : Reader Nat := fun s =>
  if isGroupName name then
    match Table.get? s.names (String.ofList name) with
    | some number => .ok (number, s)
    | none => .error .invalid
  else
    let digits := Text.stripChars name
    if digits.isEmpty || !digits.all Text.isDigit then .error .invalid
    else
      let number := Text.natOfDigits digits
      if number = 0 then .error .invalid
      else .ok (number, { s with asked := number :: s.asked })

/-- A group inside of a look behind must have been closed before it. -/
private def checkBehind (number : Nat) : Reader Unit := fun s =>
  match s.behindFrom with
  | none => .ok ((), s)
  | some first =>
    if Table.has s.widths number && number < first then .ok ((), s) else .error .invalid

/-! ## Patterns -/

/-- The pattern made of items that were read in reverse. -/
private def ofReversed (items : List Pattern) : Pattern :=
  .sequence items.reverse

mutual

/-- Read alternatives; `outermost` holds outside of all groups. -/
private def readChoice (fuel : Nat) (flags : Flags) (outermost : Bool) : Reader Pattern :=
  match fuel with
  | 0 => fun _ => .error .invalid
  | fuel + 1 => fun s => do
    let (first, s) ← readSequence fuel flags outermost [] s
    let flags := if outermost then s.flags else flags
    let (others, s) ← readChoices fuel flags s
    return (if others.isEmpty then first else .choice (first :: others), s)

/-- Read further alternatives, each behind a bar. -/
private def readChoices (fuel : Nat) (flags : Flags) : Reader (List Pattern) :=
  match fuel with
  | 0 => fun _ => .error .invalid
  | fuel + 1 => fun s => do
    match s.rest with
    | '|' :: rest =>
      let (next, s) ← readSequence fuel flags false [] { s with rest := rest }
      let (others, s) ← readChoices fuel flags s
      return (next :: others, s)
    | _ => return ([], s)

/-- Read items up to a bar, a closing parenthesis or the end; `before` are the items already read,
in reverse, and `first` holds where switches for the whole pattern may stand. -/
private def readSequence (fuel : Nat) (flags : Flags) (first : Bool) (before : List Pattern) :
    Reader Pattern :=
  match fuel with
  | 0 => fun _ => .error .invalid
  | fuel + 1 => fun s =>
    match s.rest with
    | [] | '|' :: _ | ')' :: _ => .ok (ofReversed before, s)
    | ['\\'] => .error .invalid
    | '\\' :: c :: rest => do
      let (item, s) ← readEscape flags c { s with rest := rest }
      readSequence fuel flags first (item :: before) s
    | c :: rest =>
      let s := { s with rest := rest }
      let turn (least : Nat) (most : Option Nat) (rest : List Char) := do
        let (before, rest) ← repeatLast least most before rest
        readSequence fuel flags first before { s with rest := rest }
      if flags.verbose && isFiller c then readSequence fuel flags first before s
      else if flags.verbose && c == '#' then
        readSequence fuel flags first before { s with rest := skipLine rest }
      else
        match c with
        | '[' => do
          let (item, s) ← readClass flags s
          readSequence fuel flags first (item :: before) s
        | '*' => turn 0 none rest
        | '+' => turn 1 none rest
        | '?' => turn 0 (some 1) rest
        | '\x7b' => do
          match ← readBounds? rest with
          | some (least, most, rest) => turn least most rest
          | none => readSequence fuel flags first (single flags 0x7b :: before) s
        | '.' => readSequence fuel flags first (.any flags.dotAll :: before) s
        | '^' =>
          let anchor := if flags.multiline then Anchor.lineStart else Anchor.textStart
          readSequence fuel flags first (.anchor anchor :: before) s
        | '$' =>
          let anchor := if flags.multiline then Anchor.lineEnd else Anchor.lastLineEnd
          readSequence fuel flags first (.anchor anchor :: before) s
        | '(' => readGroup fuel flags first before s
        | c => readSequence fuel flags first (single flags c.toNat :: before) s

/-- Read a group behind its opening parenthesis, and the items that follow it. -/
private def readGroup (fuel : Nat) (flags : Flags) (first : Bool) (before : List Pattern) :
    Reader Pattern :=
  match fuel with
  | 0 => fun _ => .error .invalid
  | fuel + 1 => fun s =>
    let numbered (name : Option String) (s : ReadState) := do
      let (number, s) ← openGroup name s
      let (body, s) ← readChoice fuel flags false s
      let ((), s) ← closeParenthesis s
      -- A group may be referred to from here on.
      let s := { s with widths := Table.put s.widths number (body.width s.groupWidth) }
      readSequence fuel flags first (.group number body :: before) s
    let plain (flags' : Flags) (wrap : Pattern → Pattern) (s : ReadState) := do
      let (body, s) ← readChoice fuel flags' false s
      let ((), s) ← closeParenthesis s
      readSequence fuel flags first (wrap body :: before) s
    let ahead (negated : Bool) (s : ReadState) := plain flags (.look none negated) s
    let behind (negated : Bool) (s : ReadState) := do
      let outer := s.behindFrom
      -- The outermost look behind decides which groups are open to it.
      let inner := { s with behindFrom := some (outer.getD s.nextGroup) }
      let (body, s) ← readChoice fuel flags false inner
      let ((), s) ← closeParenthesis { s with behindFrom := outer }
      match body.width s.groupWidth with
      | (least, some most) =>
        if least ≠ most then throw .invalid
        readSequence fuel flags first (.look (some least) negated body :: before) s
      | _ => throw .invalid
    match s.rest with
    | '?' :: ':' :: rest => plain flags (fun p => .sequence [p]) { s with rest := rest }
    | '?' :: '>' :: rest => plain flags .atomic { s with rest := rest }
    | '?' :: '=' :: rest => ahead false { s with rest := rest }
    | '?' :: '!' :: rest => ahead true { s with rest := rest }
    | '?' :: '<' :: '=' :: rest => behind false { s with rest := rest }
    | '?' :: '<' :: '!' :: rest => behind true { s with rest := rest }
    | '?' :: '#' :: rest => do
      let rest ← skipComment rest
      readSequence fuel flags first before { s with rest := rest }
    | '?' :: 'P' :: '<' :: rest => do
      let (name, rest) ← readUntil '>' rest
      if !isGroupName name then throw .invalid
      numbered (some (String.ofList name)) { s with rest := rest }
    | '?' :: 'P' :: '=' :: rest => do
      let (name, rest) ← readUntil ')' rest
      match Table.get? s.names (String.ofList name) with
      | some number =>
        let (item, s) ← referTo flags number { s with rest := rest }
        readSequence fuel flags first (item :: before) s
      | none => throw .invalid
    | '?' :: '(' :: rest => do
      let (name, rest) ← readUntil ')' rest
      let (number, s) ← conditionGroup name { s with rest := rest }
      let ((), s) ← checkBehind number s
      let (whenMatched, s) ← readSequence fuel flags false [] s
      let (otherwise, s) ← match s.rest with
        | '|' :: rest => readSequence fuel flags false [] { s with rest := rest }
        | _ => pure (.sequence [], s)
      let ((), s) ← closeParenthesis s
      readSequence fuel flags first (.ifGroup number whenMatched otherwise :: before) s
    | '?' :: rest => do
      let (flags', isGlobal, rest) ← readFlags flags rest
      let s := { s with rest := rest }
      if isGlobal then
        if !first || !before.isEmpty then throw .invalid
        readSequence fuel flags' first before { s with flags := flags' }
      else plain flags' (fun p => .sequence [p]) s
    | _ => numbered none s

end

/-- The regular expression that a text writes, and its number of groups. -/
def read (text : List Char) : Except ReadProblem (Pattern × Nat) := do
  let start : ReadState := ⟨text, 1, [], [], none, [], Flags.none⟩
  let (pattern, s) ← readChoice (4 * text.length + 4) Flags.none true start
  if !s.rest.isEmpty || s.asked.any (s.nextGroup ≤ ·) then throw .invalid
  return (pattern, s.nextGroup - 1)

end Pattern

end Groundplan
