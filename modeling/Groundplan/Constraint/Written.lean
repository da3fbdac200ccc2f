import Groundplan.Constraint.Basic
import Groundplan.Source
import Groundplan.Text.Blank
import Groundplan.Text.Letter

/-!
# The written form of type constraints

Reads texts such as `map(list(string))` and `object({name = string, size = number})`.  Blanks may
stand between any two tokens, and the commas between attributes may be left out.

## Main definitions

- `Constraint.Malformed`: why a text is no constraint, with offsets in characters
- `Constraint.Behind`: the characters left behind a token
- `Constraint.read`: the constraint that a text writes
-/

namespace Groundplan

namespace Constraint

/-- Why a text writes no constraint. -/
inductive Malformed where
  /-- Text behind a complete constraint. -/
  | trailing (text : String)
  /-- A character that is not where it must be. -/
  | missing (char : Char) (offset : Nat)
  /-- No word where one must be. -/
  | missingName (offset : Nat)
  /-- A word that names no type. -/
  | unknownType (word : String)
deriving DecidableEq, Repr, Inhabited

/-- Text of the reason why a text writes no constraint. -/
def Malformed.message : Malformed → String
  | .trailing text => "unexpected '" ++ text ++ "' in type expression"
  | .missing char offset =>
    "expected '" ++ String.singleton char ++ "' at offset " ++ toString offset
      ++ " in type expression"
  | .missingName offset => "expected a name at offset " ++ toString offset ++ " in type expression"
  | .unknownType word => "unknown type '" ++ word ++ "'"

/-! ## Tokens

Readers take the characters that are left of a text of `total` characters, and return those left
behind the token, which are always fewer. -/

/-- Characters left behind a token that has been read from `cs`. -/
abbrev Behind (cs : List Char) := {rest : List Char // rest.length < cs.length}

/-- Characters without the blanks in front. -/
def skipBlanks (cs : List Char) : List Char :=
  cs.dropWhile Text.isBlank

theorem length_skipBlanks_le (cs : List Char) : (skipBlanks cs).length ≤ cs.length :=
  (List.dropWhile_suffix Text.isBlank).length_le

theorem length_lt_of_skipBlanks {cs rest : List Char} {c : Char} (h : skipBlanks cs = c :: rest) :
    rest.length < cs.length := by
  have hle := length_skipBlanks_le cs
  rw [h, List.length_cons] at hle
  omega

/-- Read one character behind blanks. -/
def expect (total : Nat) (char : Char) (cs : List Char) : Except Malformed (Behind cs) :=
  match h : skipBlanks cs with
  | [] => .error (.missing char total)
  | c :: rest =>
    if c = char then .ok ⟨rest, length_lt_of_skipBlanks h⟩
    else .error (.missing char (total - (rest.length + 1)))

/-- Some characters are fewer without a word in front. -/
theorem length_lt_of_word {cs : List Char}
    (h : (skipBlanks cs).takeWhile Text.isWordChar ≠ []) :
    ((skipBlanks cs).dropWhile Text.isWordChar).length < cs.length := by
  have hle := length_skipBlanks_le cs
  have hsplit := congrArg List.length
    (List.takeWhile_append_dropWhile (p := Text.isWordChar) (l := skipBlanks cs))
  have hpos := List.length_pos_iff.mpr h
  rw [List.length_append] at hsplit
  omega

/-- Read a word behind blanks. -/
def readWord (total : Nat) (cs : List Char) : Except Malformed (String × Behind cs) :=
  let word := (skipBlanks cs).takeWhile Text.isWordChar
  let rest := (skipBlanks cs).dropWhile Text.isWordChar
  if h : word ≠ [] then .ok (String.ofList word, ⟨rest, length_lt_of_word h⟩)
  else .error (.missingName (total - rest.length))

/-- Drop a comma behind blanks, if there is one. -/
def skipComma (cs : List Char) : List Char :=
  match skipBlanks cs with
  | ',' :: rest => rest
  | rest => rest

theorem length_skipComma_le (cs : List Char) : (skipComma cs).length ≤ cs.length := by
  have hle := length_skipBlanks_le cs
  unfold skipComma
  split
  · next h =>
    rw [h, List.length_cons] at hle
    omega
  · exact hle

/-! ## Constraints -/

mutual

/-- Read a constraint. -/
def readConstraint (total : Nat) (cs : List Char) : Except Malformed (Constraint × Behind cs) := do
  let (word, ⟨inner, hinner⟩) ← readWord total cs
  match primitive? word with
  | some constraint => return (constraint, ⟨inner, hinner⟩)
  | none =>
    match collection? word with
    | some collection =>
      let ⟨opened, hopened⟩ ← expect total '(' inner
      let (element, ⟨closing, hclosing⟩) ← readConstraint total opened
      let ⟨rest, hrest⟩ ← expect total ')' closing
      return (collection element, ⟨rest, by omega⟩)
    | none =>
      if word == "object" then
        let ⟨opened, hopened⟩ ← expect total '(' inner
        let ⟨body, hbody⟩ ← expect total '\x7b' opened
        let (attributes, ⟨closing, hclosing⟩) ← readAttributes total body
        let ⟨rest, hrest⟩ ← expect total ')' closing
        return (.object attributes, ⟨rest, by omega⟩)
      else throw (.unknownType word)
termination_by cs.length

/-- Read attributes up to and including the closing brace. -/
def readAttributes (total : Nat) (cs : List Char) :
    Except Malformed (List (String × Constraint) × Behind cs) :=
  match h : skipBlanks cs with
  | '\x7d' :: rest => .ok ([], ⟨rest, length_lt_of_skipBlanks h⟩)
  | _ => do
    let (title, ⟨named, hnamed⟩) ← readWord total cs
    let ⟨value, hvalue⟩ ← expect total '=' named
    let (constraint, ⟨read, hread⟩) ← readConstraint total value
    have hcomma := length_skipComma_le read
    let (attributes, ⟨rest, hrest⟩) ← readAttributes total (skipComma read)
    return ((title, constraint) :: attributes, ⟨rest, by omega⟩)
termination_by cs.length

end

section Reading

variable {total : Nat} {cs : List Char}

/-- A word that names a type by itself is read alone. -/
theorem readConstraint_of_primitive? {word : String} {T : Constraint} {inner : Behind cs}
    (hread : readWord total cs = .ok (word, inner)) (h : primitive? word = some T) :
    readConstraint total cs = .ok (T, inner) := by
  rw [readConstraint, hread]
  simp only [bind, Except.bind, h]
  rfl

/-- A brace closes the attributes. -/
theorem readAttributes_of_brace {rest : List Char} (h : skipBlanks cs = '\x7d' :: rest) :
    readAttributes total cs = .ok ([], ⟨rest, length_lt_of_skipBlanks h⟩) := by
  rw [readAttributes]
  split
  · next h' =>
    cases h.symm.trans h'
    rfl
  · next hother => exact absurd h (hother rest)

end Reading

/-- The constraint that a text writes. -/
def read (text : String) : Except Malformed Constraint := do
  let cs := text.toList
  let (constraint, ⟨rest, _⟩) ← readConstraint cs.length cs
  match skipBlanks rest with
  | [] => return constraint
  | trailing => throw (.trailing (String.ofList trailing))

end Constraint

end Groundplan
