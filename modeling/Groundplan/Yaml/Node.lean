import Groundplan.Yaml.Token

/-!
# Trees of YAML texts

The tokens of a text form a tree of scalars, sequences and mappings.  A missing item, key or value
is an empty scalar.

## Main definitions

- `Node`
- `Node.ofTokens?`: the tree of the only document among some tokens
-/

namespace Groundplan.Yaml

/-- A node of a document. -/
inductive Node where
  | scalar (quoted : Bool) (text : String)
  | sequence (items : List Node)
  | mapping (members : List (Node × Node))
deriving Inhabited

namespace Node

/-- The node that stands where nothing is written. -/
def empty : Node := .scalar false ""

/-- Where a node stands, which decides about the blocks that it may be. -/
inductive Position where
  /-- Inside of brackets: no blocks. -/
  | flow
  /-- An item or a whole document: a block of deeper indentation. -/
  | block
  /-- A key or value of a block: also items that are not indented. -/
  | member
deriving DecidableEq

/-- Whether a key or value of a block is missing in front of a token. -/
def endsMember : Token → Bool
  | .key | .value | .blockEnd => true
  | _ => false

/-- Whether an item of a block is missing in front of a token. -/
def endsItem : Token → Bool
  | .item | .blockEnd => true
  | _ => false

/-- Whether an item without indentation is missing in front of a token. -/
def endsPlainItem (t : Token) : Bool :=
  endsItem t || endsMember t

/-- Whether a value inside of brackets is missing in front of a token. -/
def endsFlowValue : Token → Bool
  | .separator | .flowSequenceEnd | .flowMappingEnd => true
  | _ => false

/-- Whether a key inside of brackets is missing in front of a token. -/
def endsFlowKey : Token → Bool
  | .value => true
  | t => endsFlowValue t

/-- Whether an item between brackets has to be read behind the tokens in front: at first one may
follow at once, later on only behind a separator. -/
def separated? (first : Bool) : List Token → Option (List Token)
  | .separator :: ts => if first then none else some ts
  | ts => if first then some ts else none

mutual

/-- The node in front of the tokens and the tokens behind it; `fuel` bounds the depth of calls. -/
def read? : Nat → Position → List Token → Option (Node × List Token)
  | 0, _, _ => none
  | fuel + 1, position, ts =>
    match ts with
    | .scalar quoted text :: ts => some (.scalar quoted text, ts)
    | .flowSequence :: ts =>
      (readFlowItems? fuel true ts).map fun (items, ts) => (.sequence items, ts)
    | .flowMapping :: ts =>
      (readFlowMembers? fuel true ts).map fun (members, ts) => (.mapping members, ts)
    | .blockSequence :: ts =>
      if position == .flow then none
      else (readItems? fuel ts).map fun (items, ts) => (.sequence items, ts)
    | .blockMapping :: ts =>
      if position == .flow then none
      else (readMembers? fuel ts).map fun (members, ts) => (.mapping members, ts)
    | .item :: _ =>
      if position == .member then
        (readPlainItems? fuel ts).map fun (items, ts) => (.sequence items, ts)
      else none
    | _ => none

/-- The node in front of the tokens, which is empty if the next token satisfies `missing`. -/
def readOr? : Nat → (Token → Bool) → Position → List Token → Option (Node × List Token)
  | 0, _, _, _ => none
  | fuel + 1, missing, position, ts =>
    if (ts.head?.map missing).getD false then some (.empty, ts) else read? fuel position ts

/-- The items of a block up to its end. -/
def readItems? : Nat → List Token → Option (List Node × List Token)
  | 0, _ => none
  | fuel + 1, ts =>
    match ts with
    | .item :: ts => do
      let (item, ts) ← readOr? fuel endsItem .block ts
      let (items, ts) ← readItems? fuel ts
      return (item :: items, ts)
    | .blockEnd :: ts => some ([], ts)
    | _ => none

/-- The items that are not indented deeper than the key in front of them. -/
def readPlainItems? : Nat → List Token → Option (List Node × List Token)
  | 0, _ => none
  | fuel + 1, ts =>
    match ts with
    | .item :: ts => do
      let (item, ts) ← readOr? fuel endsPlainItem .block ts
      let (items, ts) ← readPlainItems? fuel ts
      return (item :: items, ts)
    | ts => some ([], ts)

/-- The members of a block up to its end. -/
def readMembers? : Nat → List Token → Option (List (Node × Node) × List Token)
  | 0, _ => none
  | fuel + 1, ts =>
    match ts with
    | .key :: ts => do
      let (key, ts) ← readOr? fuel endsMember .member ts
      let (value, ts) ← match ts with
        | .value :: ts => readOr? fuel endsMember .member ts
        | ts => some (.empty, ts)
      let (members, ts) ← readMembers? fuel ts
      return ((key, value) :: members, ts)
    | .blockEnd :: ts => some ([], ts)
    | _ => none

/-- The key and value behind the token of a key inside of brackets. -/
def readFlowMember? : Nat → List Token → Option ((Node × Node) × List Token)
  | 0, _ => none
  | fuel + 1, ts => do
    let (key, ts) ← readOr? fuel endsFlowKey .flow ts
    let (value, ts) ← match ts with
      | .value :: ts => readOr? fuel endsFlowValue .flow ts
      | ts => some (.empty, ts)
    return ((key, value), ts)

/-- The items between square brackets up to the closing one.  A key among them starts a mapping
with one member. -/
def readFlowItems? : Nat → Bool → List Token → Option (List Node × List Token)
  | 0, _, _ => none
  | _, _, .flowSequenceEnd :: ts => some ([], ts)
  | fuel + 1, first, ts =>
    match separated? first ts with
    | some (.flowSequenceEnd :: ts) => some ([], ts)
    | some (.key :: ts) => do
      let (member, ts) ← readFlowMember? fuel ts
      let (items, ts) ← readFlowItems? fuel false ts
      return (.mapping [member] :: items, ts)
    | some ts => do
      let (item, ts) ← read? fuel .flow ts
      let (items, ts) ← readFlowItems? fuel false ts
      return (item :: items, ts)
    | none => none

/-- The members between braces up to the closing one.  What is not marked as a key is one without
a value. -/
def readFlowMembers? : Nat → Bool → List Token → Option (List (Node × Node) × List Token)
  | 0, _, _ => none
  | _, _, .flowMappingEnd :: ts => some ([], ts)
  | fuel + 1, first, ts =>
    match separated? first ts with
    | some (.flowMappingEnd :: ts) => some ([], ts)
    | some (.key :: ts) => do
      let (member, ts) ← readFlowMember? fuel ts
      let (members, ts) ← readFlowMembers? fuel false ts
      return (member :: members, ts)
    | some ts => do
      let (key, ts) ← read? fuel .flow ts
      let (members, ts) ← readFlowMembers? fuel false ts
      return ((key, .empty) :: members, ts)
    | none => none

end

/-- Whether a token is a mark of a document. -/
def isMark : Token → Bool
  | .documentStart | .documentEnd => true
  | _ => false

/-- The tree of the only document among the tokens.  Without any document it is the empty node. -/
def ofTokens? (ts : List Token) : Option Node :=
  let fuel := 3 * ts.length + 3
  let read : Option (Node × List Token) :=
    match ts with
    | [] => some (.empty, [])
    | .documentStart :: ts =>
      if ts.isEmpty then some (.empty, []) else readOr? fuel isMark .block ts
    | ts => read? fuel .block ts
  match read with
  | some (node, rest) => if rest.all (· == .documentEnd) then some node else none
  | none => none

end Node

end Groundplan.Yaml
