import Groundplan.Library.Collection
import Groundplan.Pattern.Substitution
import Groundplan.Text.Search

/-!
# Functions on strings

## Main definitions

- `Library.joinTexts`, `Library.replaceText`, `Library.substring`
- `Library.textFunctions`: all functions on strings, except `format`, with their signatures
-/

namespace Groundplan

namespace Library

/-- The texts of all elements of some sequences, whose arguments are counted from `position`. -/
def textsOfAll (position : Int) : List Value → Outcome (List String)
  | [] => .ok []
  | list :: lists => do
    let found ← texts "join" position (list.items?.getD [])
    return found ++ (← textsOfAll (position + 1) lists)

/-- The inner text of a search between slashes. -/
def searchPattern? (search : String) : Option String :=
  match search.toList with
  | '/' :: c :: rest =>
    match (c :: rest).reverse with
    | '/' :: inner => some (String.ofList inner.reverse)
    | _ => none
  | _ => none

/-- The text with every occurrence of a search replaced; a search between slashes is a regular
expression. -/
def replaceText (s search replacement : String) : Outcome String :=
  match searchPattern? search with
  | none => .ok (Text.replace s search replacement)
  | some pattern =>
    match Pattern.substitute pattern replacement s with
    | .ok replaced => .ok replaced
    | .error .invalid => fail (.functionCall "replace" "invalid regular expression: ") none
    | .error .tooManyTurns =>
      fail (.functionCall "replace" "arithmetic error: the repetition number is too large") none

/-- `length` characters from an offset on, or all of them if the length is minus one.  A negative
offset counts from the end. -/
def substring (s : String) (offset length : Value) : Outcome String := do
  let cs := s.toList
  let start ← wholeNumber "substr" 2 offset
  let count ← wholeNumber "substr" 3 length
  let start := if start < 0 then start + cs.length else start
  if start < 0 || cs.length < start then
    fail (.functionCall "substr" "offset out of range") none
  let rest := cs.drop start.toNat
  if count = -1 then return String.ofList rest
  if count < 0 then fail (.functionCall "substr" "length must be non-negative or -1") none
  return String.ofList (rest.take count.toNat)

/-- A function of one string. -/
def textFunction (name : String) (run : String → String) : Function :=
  ⟨plainSignature name [.of "string" [.string]] .shallow,
    fun
    | [.string s] => .ok (.string (run s))
    | _ => unsuited name⟩

/-- All functions on strings but `format`. -/
def textFunctions : List Function := [
  textFunction "upper" Text.upper,
  textFunction "lower" Text.lower,
  textFunction "trimspace" Text.strip,
  ⟨⟨"join", [.of "separator" [.string]], some (.of "lists" sequenceKinds), 1, .deep⟩,
    fun
    | .string separator :: lists => do
      return .string (Text.join separator (← textsOfAll 2 lists))
    | _ => unsuited "join"⟩,
  ⟨plainSignature "split" [.of "separator" [.string], .of "string" [.string]] .shallow,
    fun
    | [.string separator, .string s] =>
      .ok (.list ((Text.splitOn separator s).map .string))
    | _ => unsuited "split"⟩,
  ⟨plainSignature "replace"
      [.of "string" [.string], .of "search" [.string], .of "replacement" [.string]] .shallow,
    fun
    | [.string s, .string search, .string replacement] =>
      (replaceText s search replacement).map .string
    | _ => unsuited "replace"⟩,
  ⟨plainSignature "substr"
      [.of "string" [.string], .of "offset" [.number], .of "length" [.number]] .shallow,
    fun
    | [.string s, offset, length] => (substring s offset length).map .string
    | _ => unsuited "substr"⟩]

end Library

end Groundplan
