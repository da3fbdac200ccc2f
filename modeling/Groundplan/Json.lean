import Groundplan.Table
import Groundplan.Text.Quoted

/-!
# JSON documents

Documents in which tools hand over data and take diagnostics.  Members keep their order, and
numbers keep the text that writes them.

## Main definitions

- `Json`: documents
- `Json.read?`: the document that a text writes
- `Json.text`: how a document is written
-/

namespace Groundplan

/-- A JSON document. -/
inductive Json where
  | null
  | bool (b : Bool)
  | number (written : String)
  | string (s : String)
  | array (items : List Json)
  | object (members : List (String × Json))
deriving Inhabited

namespace Json

/-! ## Reading -/

/-- Whether a character may stand between tokens. -/
def isGap (c : Char) : Bool :=
  c == ' ' || c == '\n' || c == '\r' || c == '\t'

/-- Whether a character may be part of a number. -/
def isNumeric (c : Char) : Bool :=
  c.isAlphanum || c == '-' || c == '+' || c == '.'

/-- The value of a hexadecimal digit. -/
def digitOf (c : Char) : Nat :=
  if c.isDigit then c.toNat - '0'.toNat else (c.toLower.toNat + 10) - 'a'.toNat

/-- The code unit that four hexadecimal digits write. -/
def unitOf (a b c d : Char) : Nat :=
  ((digitOf a * 16 + digitOf b) * 16 + digitOf c) * 16 + digitOf d

/-- The character that an escape of one letter stands for. -/
def unescape : Char → Char
  | 'n' => '\n'
  | 't' => '\t'
  | 'r' => '\r'
  | 'b' => '\x08'
  | 'f' => '\x0c'
  | c => c

/-- The characters of a string up to its closing quote, in front of which `read` have been read,
the last one first.  `lead` is an open first half of a pair of code units. -/
def readString (lead : Option Nat) (read : List Char) :
    List Char → Option (String × List Char)
  | [] => none
  | '"' :: rest => some (String.ofList read.reverse, rest)
  | '\\' :: 'u' :: a :: b :: c :: d :: rest =>
    let unit := unitOf a b c d
    match lead with
    | some high =>
      readString none (Char.ofNat (0x10000 + (high - 0xD800) * 0x400 + (unit - 0xDC00)) :: read)
        rest
    | none =>
      if 0xD800 ≤ unit && unit < 0xDC00 then readString (some unit) read rest
      else readString none (Char.ofNat unit :: read) rest
  | '\\' :: c :: rest => readString none (unescape c :: read) rest
  | c :: rest => readString none (c :: read) rest

mutual

/-- The document at the front of the characters, and the characters behind it; `fuel` bounds the
number of tokens. -/
def readFrom : Nat → List Char → Option (Json × List Char)
  | 0, _ => none
  | fuel + 1, cs =>
    match cs.dropWhile isGap with
    | '"' :: rest => (readString none [] rest).map fun (s, rest) => (.string s, rest)
    | '[' :: rest => readItems fuel [] rest
    | '\x7b' :: rest => readMembers fuel [] rest
    | cs =>
      let (word, rest) := cs.span isNumeric
      match String.ofList word with
      | "" => none
      | "null" => some (.null, rest)
      | "true" => some (.bool true, rest)
      | "false" => some (.bool false, rest)
      | written => some (.number written, rest)

/-- The items of an array behind those that have been read, the last one first. -/
def readItems : Nat → List Json → List Char → Option (Json × List Char)
  | 0, _, _ => none
  | fuel + 1, read, cs =>
    match cs.dropWhile isGap with
    | ']' :: rest => some (.array read.reverse, rest)
    | ',' :: rest => readItems fuel read rest
    | cs =>
      match readFrom fuel cs with
      | some (item, rest) => readItems fuel (item :: read) rest
      | none => none

/-- The members of an object behind those that have been read, the last one first. -/
def readMembers : Nat → List (String × Json) → List Char → Option (Json × List Char)
  | 0, _, _ => none
  | fuel + 1, read, cs =>
    match cs.dropWhile isGap with
    | '\x7d' :: rest => some (.object (Table.ofList read.reverse), rest)
    | ',' :: rest => readMembers fuel read rest
    | '"' :: rest =>
      match readString none [] rest with
      | none => none
      | some (key, rest) =>
        match rest.dropWhile isGap with
        | ':' :: rest =>
          match readFrom fuel rest with
          | some (value, rest) => readMembers fuel ((key, value) :: read) rest
          | none => none
        | _ => none
    | _ => none

end

section Tokens

variable {fuel : Nat} {cs : List Char}

theorem readString_quote (read : List Char) :
    readString none read ('"' :: cs) = some (String.ofList read.reverse, cs) :=
  rfl

theorem readFrom_quote : readFrom (fuel + 1) ('"' :: cs) =
    (readString none [] cs).map fun (s, rest) => (.string s, rest) :=
  rfl

theorem readFrom_bracket : readFrom (fuel + 1) ('[' :: cs) = readItems fuel [] cs :=
  rfl

theorem readFrom_brace : readFrom (fuel + 1) ('\x7b' :: cs) = readMembers fuel [] cs :=
  rfl

theorem readItems_bracket (read : List Json) :
    readItems (fuel + 1) read (']' :: cs) = some (.array read.reverse, cs) :=
  rfl

theorem readItems_comma (read : List Json) :
    readItems (fuel + 1) read (',' :: cs) = readItems fuel read cs :=
  rfl

theorem readMembers_brace (read : List (String × Json)) :
    readMembers (fuel + 1) read ('\x7d' :: cs) = some (.object (Table.ofList read.reverse), cs) :=
  rfl

theorem readMembers_comma (read : List (String × Json)) :
    readMembers (fuel + 1) read (',' :: cs) = readMembers fuel read cs :=
  rfl

end Tokens

/-- The document that a text writes.  Of members with one key the last one counts. -/
def read? (text : String) : Option Json :=
  let cs := text.toList
  (readFrom (cs.length + 1) cs).map Prod.fst

/-! ## Writing -/

mutual

/-- How a document is written. -/
def text : Json → String
  | .null => "null"
  | .bool b => if b then "true" else "false"
  | .number written => written
  | .string s => Text.quoteJson s
  | .array items => "[" ++ ",".intercalate (itemTexts items) ++ "]"
  | .object members => "\x7b" ++ ",".intercalate (memberTexts members) ++ "\x7d"

/-- How the items of an array are written. -/
def itemTexts : List Json → List String
  | [] => []
  | j :: js => text j :: itemTexts js

/-- How the members of an object are written. -/
def memberTexts : List (String × Json) → List String
  | [] => []
  | (key, j) :: members => (Text.quoteJson key ++ ":" ++ text j) :: memberTexts members

end

theorem text_string (s : String) : (string s).text = Text.quoteJson s :=
  rfl

theorem text_array (items : List Json) :
    (array items).text = "[" ++ ",".intercalate (itemTexts items) ++ "]" :=
  rfl

theorem text_object (members : List (String × Json)) :
    (object members).text = "\x7b" ++ ",".intercalate (memberTexts members) ++ "\x7d" :=
  rfl

/-! ## Parts -/

/-- The integer `i`. -/
def ofInt (i : Int) : Json :=
  .number (toString i)

/-- A list of strings. -/
def ofTexts (texts : List String) : Json :=
  .array (texts.map .string)

/-- A string that may be missing. -/
def ofText? : Option String → Json
  | some s => .string s
  | none => .null

/-- The member of an object under a key. -/
def get? (j : Json) (key : String) : Option Json :=
  match j with
  | .object members => Table.get? members key
  | _ => none

end Json

end Groundplan
