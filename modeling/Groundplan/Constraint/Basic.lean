/-!
# Type constraints

A constraint says which values a variable accepts.  Its name is its written form.

## Main definitions

- `Constraint`
- `Constraint.name`: the written form
- `Constraint.primitive?`: the constraint that a bare word names
-/

namespace Groundplan

/-- A type constraint of a variable. -/
inductive Constraint where
  | string
  | number
  | bool
  /-- Accepts every value unchanged. -/
  | any
  | list (element : Constraint)
  | set (element : Constraint)
  | map (element : Constraint)
  /-- A closed list of attributes; of a repeated name the last constraint counts. -/
  | object (attributes : List (String × Constraint))
deriving Repr, Inhabited

namespace Constraint

mutual

/-- The written form of a constraint. -/
def name : Constraint → String
  | .string => "string"
  | .number => "number"
  | .bool => "bool"
  | .any => "any"
  | .list element => "list(" ++ name element ++ ")"
  | .set element => "set(" ++ name element ++ ")"
  | .map element => "map(" ++ name element ++ ")"
  | .object attributes => "object(\x7b" ++ ", ".intercalate (attributeNames attributes) ++ "\x7d)"

/-- The written forms of attributes. -/
def attributeNames : List (String × Constraint) → List String
  | [] => []
  | (title, constraint) :: rest =>
    (title ++ " = " ++ name constraint) :: attributeNames rest

end

theorem name_object (attributes : List (String × Constraint)) :
    (object attributes).name
      = "object(\x7b" ++ ", ".intercalate (attributeNames attributes) ++ "\x7d)" :=
  rfl

theorem attributeNames_nil : attributeNames [] = [] :=
  rfl

theorem attributeNames_cons (first : String × Constraint)
    (attributes : List (String × Constraint)) :
    attributeNames (first :: attributes)
      = (first.1 ++ " = " ++ first.2.name) :: attributeNames attributes :=
  rfl

/-- The constraint that a bare word names. -/
def primitive? (word : String) : Option Constraint :=
  if word == "string" then some .string
  else if word == "number" then some .number
  else if word == "bool" then some .bool
  else if word == "any" then some .any
  else none

/-- The constraint on collections that a word names, given the constraint on the elements. -/
def collection? (word : String) : Option (Constraint → Constraint) :=
  if word == "list" then some .list
  else if word == "set" then some .set
  else if word == "map" then some .map
  else none

end Constraint

end Groundplan
