import Groundplan.Yaml.Node
import Groundplan.Yaml.Typing

/-!
# YAML documents

The data that a text with a single document tells.  Directives, anchors, aliases, tags and block
scalars are refused.

## Main definitions

- `Node.data?`: the data of a tree
- `Yaml.read?`: the data of a text
-/

namespace Groundplan.Yaml

/-! ## Dictionaries -/

/-- Store a value under a key, in the place of a key that coincides with it or else at the end. -/
def putEntry (key value : Plain) : List (Plain × Plain) → List (Plain × Plain)
  | [] => [(key, value)]
  | (k, v) :: entries =>
    if k.coincide key then (k, value) :: entries else (k, v) :: putEntry key value entries

/-- The dictionary of some entries; of keys that coincide the first place and last value stay. -/
def dictionaryOf (entries : List (Plain × Plain)) : Plain :=
  .dictionary (entries.foldl (fun kept entry => putEntry entry.1 entry.2 kept) [])

/-- The entries of dictionaries, the last dictionary first. -/
def entriesOfAll? : List Plain → Option (List (Plain × Plain))
  | [] => some []
  | .dictionary entries :: ps => (entriesOfAll? ps).map (· ++ entries)
  | _ => none

/-- The entries that a mapping takes over from data under its key for merging: a dictionary, or a
list of dictionaries of which earlier ones win. -/
def lentEntries? : Plain → Option (List (Plain × Plain))
  | .dictionary entries => some entries
  | .list items => entriesOfAll? items
  | _ => none

/-- Whether data can be a key. -/
def canBeKey : Plain → Bool
  | .list _ | .dictionary _ => false
  | _ => true

namespace Node

/-- Whether a key takes over the entries of its value. -/
def isMerge : Node → Bool
  | .scalar false "<<" => true
  | _ => false

mutual

/-- The data of a tree. -/
def data? : Node → Option Plain
  | .scalar true text => some (.text text)
  | .scalar false text => if text == "=" then none else some (Typing.dataOf text)
  | .sequence items => (itemData? items).map .list
  | .mapping members => (memberData? members).map fun (lent, own) => dictionaryOf (lent ++ own)

/-- The data of some items. -/
def itemData? : List Node → Option (List Plain)
  | [] => some []
  | node :: nodes => do
    let p ← data? node
    return p :: (← itemData? nodes)

/-- The entries of some members: those taken over from elsewhere, and their own ones. -/
def memberData? : List (Node × Node) → Option (List (Plain × Plain) × List (Plain × Plain))
  | [] => some ([], [])
  | (key, value) :: members => do
    let p ← data? value
    if key.isMerge then
      let entries ← lentEntries? p
      let (lent, own) ← memberData? members
      return (entries ++ lent, own)
    else
      let k ← match key with
        | .scalar false "=" => some (.text "=")
        | key => data? key
      let (lent, own) ← memberData? members
      if canBeKey k then return (lent, (k, p) :: own) else none

end

end Node

/-- The data that a text tells, unless it is malformed.  A text without a document tells null. -/
def read? (text : String) : Option Plain := do
  let tokens ← Token.ofText? text
  let node ← Node.ofTokens? tokens
  node.data?

end Groundplan.Yaml
