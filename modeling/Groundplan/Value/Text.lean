import Groundplan.Decimal.Context
import Groundplan.Sorting
import Groundplan.Text.Quoted
import Groundplan.Value.Basic

/-!
# Texts of values

A value is written as in configuration, or as JSON.  Both fail only on a number whose exponent the
arithmetic of the language cannot hold.

## Main definitions

- `Value.render`: the text of a value in configuration
- `Value.toJson`: the JSON text of a value, with sorted keys
-/

namespace Groundplan

namespace Value

/-! ## Configuration text -/

mutual

/-- The text of a value as it would be written in configuration. -/
def render : Value → Except Decimal.Signal String
  | .null => .ok "null"
  | .unknown => .ok "(known after apply)"
  | .bool b => .ok (if b then "true" else "false")
  | .number n => n.toText
  | .string s => .ok (Text.quote s)
  | .list items => do return "[" ++ ", ".intercalate (← renderItems items) ++ "]"
  | .set items => do return "toset([" ++ ", ".intercalate (← renderItems items) ++ "])"
  | .map entries => do
    return "tomap(\x7b" ++ ", ".intercalate (← renderFields entries) ++ "\x7d)"
  | .object fields => do return "\x7b" ++ ", ".intercalate (← renderFields fields) ++ "\x7d"

/-- The texts of some values. -/
def renderItems : List Value → Except Decimal.Signal (List String)
  | [] => .ok []
  | v :: vs => do
    let text ← render v
    return text :: (← renderItems vs)

/-- The texts of some fields, each a quoted key and its value. -/
def renderFields : List (String × Value) → Except Decimal.Signal (List String)
  | [] => .ok []
  | (k, v) :: fields => do
    let text ← render v
    return (Text.quote k ++ " = " ++ text) :: (← renderFields fields)

end

/-! ## JSON text -/

/-- The members of a JSON object in the order of their keys. -/
def jsonMembers (members : List (String × String)) : List String :=
  (Sorting.sortKeys members).map fun (k, text) => Text.quoteJson k ++ ":" ++ text

mutual

/-- The JSON text of a value.  Sets become arrays, maps and objects become objects with sorted
keys; unknown, which no caller passes, becomes an empty object. -/
def toJson : Value → Except Decimal.Signal String
  | .null => .ok "null"
  | .unknown => .ok "\x7b\x7d"
  | .bool b => .ok (if b then "true" else "false")
  | .number n => n.toText
  | .string s => .ok (Text.quoteJson s)
  | .list items => do return "[" ++ ",".intercalate (← jsonItems items) ++ "]"
  | .set items => do return "[" ++ ",".intercalate (← jsonItems items) ++ "]"
  | .map entries => do
    return "\x7b" ++ ",".intercalate (jsonMembers (← jsonFields entries)) ++ "\x7d"
  | .object fields => do
    return "\x7b" ++ ",".intercalate (jsonMembers (← jsonFields fields)) ++ "\x7d"

/-- The JSON texts of some values. -/
def jsonItems : List Value → Except Decimal.Signal (List String)
  | [] => .ok []
  | v :: vs => do
    let text ← toJson v
    return text :: (← jsonItems vs)

/-- The keys of some fields with the JSON texts of their values. -/
def jsonFields : List (String × Value) → Except Decimal.Signal (List (String × String))
  | [] => .ok []
  | (k, v) :: fields => do
    let text ← toJson v
    return (k, text) :: (← jsonFields fields)

end

end Value

end Groundplan
